import Mathlib.Data.Set.Card
import Rucix.Data.Parking
import Rucix.Data.Run

namespace Rucix.Sync

open Rucix.Data

/-! Reader/writer locks of `kernel/sync/waitqueue.c`.

The lock has no owner field: who holds it is where the processes are.
-/

inductive RwSide where
  | read
  | write
deriving DecidableEq, Repr

/-- Where a process is: in the loop of a lock function before its section,
behind a section that failed, asleep, holding a side; or in an unlock function
before the wake-ups of the readers or of one writer. -/
inductive RwStage where
  | outside
  | locking (side : RwSide)
  | leaving (side : RwSide)
  | asleep (side : RwSide)
  | holding (side : RwSide)
  | wakingReaders
  | wakingWriter
deriving DecidableEq, Repr

structure RwLock (Process : Type*) where
  readers : Int
  writers : Int
  readWait : List Process
  writeWait : List Process
  stage : Process → RwStage

inductive RwOp (Process : Type*) where
  | call (side : RwSide) (me : Process)
  | readLock (me : Process)
  | writeLock (me : Process)
  | sleepOn (side : RwSide) (me : Process)
  | readUnlock (me : Process)
  | writeUnlock (me : Process)
  | wakeReaders (me : Process)
  | wakeWriter (me : Process)

variable {Process : Type*}

def rwlockInit : RwLock Process where
  readers := 0
  writers := 0
  readWait := []
  writeWait := []
  stage := fun _ => .outside

namespace RwLock

variable [DecidableEq Process]

def goto (rw : RwLock Process) (me : Process) (stage : RwStage) : RwLock Process :=
  { rw with stage := Function.update rw.stage me stage }

/-- One turn of the loop of `rwlock_read_lock`. -/
def readLock (rw : RwLock Process) (me : Process) : RwLock Process :=
  if rw.writers = 0 then { rw with readers := rw.readers + 1 }.goto me (.holding .read)
  else rw.goto me (.leaving .read)

/-- One turn of the loop of `rwlock_write_lock`. -/
def writeLock (rw : RwLock Process) (me : Process) : RwLock Process :=
  if rw.writers = 0 ∧ rw.readers = 0 then { rw with writers := 1 }.goto me (.holding .write)
  else rw.goto me (.leaving .write)

def sleepOn (rw : RwLock Process) (me : Process) : RwSide → RwLock Process
  | .read => { rw with readWait := rw.readWait ++ [me] }.goto me (.asleep .read)
  | .write => { rw with writeWait := rw.writeWait ++ [me] }.goto me (.asleep .write)

def readUnlock (rw : RwLock Process) (me : Process) : RwLock Process :=
  let rw := { rw with readers := rw.readers - 1 }
  if rw.readers = 0 then rw.goto me .wakingWriter else rw.goto me .outside

def writeUnlock (rw : RwLock Process) (me : Process) : RwLock Process :=
  { rw with writers := 0 }.goto me .wakingReaders

/-- `wake_up_all(&rw->read_wait)` -/
def wakeReaders (rw : RwLock Process) (me : Process) : RwLock Process :=
  { rw with
    readWait := []
    stage := awaken (fun _ => .locking .read) rw.readWait rw.stage }.goto me .wakingWriter

/-- `wake_up(&rw->write_wait)` -/
def wakeWriter (rw : RwLock Process) (me : Process) : RwLock Process :=
  { rw with
    writeWait := rw.writeWait.drop 1
    stage := awaken (fun _ => .locking .write) (rw.writeWait.take 1) rw.stage }.goto me .outside

end RwLock

namespace RwOp

def Enabled (rw : RwLock Process) : RwOp Process → Prop
  | .call _ me => rw.stage me = .outside
  | .readLock me => rw.stage me = .locking .read
  | .writeLock me => rw.stage me = .locking .write
  | .sleepOn side me => rw.stage me = .leaving side
  | .readUnlock me => rw.stage me = .holding .read
  | .writeUnlock me => rw.stage me = .holding .write
  | .wakeReaders me => rw.stage me = .wakingReaders
  | .wakeWriter me => rw.stage me = .wakingWriter

def perform [DecidableEq Process] (rw : RwLock Process) : RwOp Process → RwLock Process
  | .call side me => rw.goto me (.locking side)
  | .readLock me => rw.readLock me
  | .writeLock me => rw.writeLock me
  | .sleepOn side me => rw.sleepOn me side
  | .readUnlock me => rw.readUnlock me
  | .writeUnlock me => rw.writeUnlock me
  | .wakeReaders me => rw.wakeReaders me
  | .wakeWriter me => rw.wakeWriter me

end RwOp

def RwStep [DecidableEq Process] (before : RwLock Process) (op : RwOp Process)
    (after : RwLock Process) : Prop :=
  op.Enabled before ∧ after = op.perform before

namespace RwLock

structure Counted (rw : RwLock Process) (holders : Finset Process) : Prop where
  reading : ∀ me, me ∈ holders ↔ rw.stage me = .holding .read
  readers : rw.readers = holders.card
  writing : ∀ me, rw.stage me = .holding .write → rw.writers = 1 ∧ holders = ∅
  single : ∀ me other, rw.stage me = .holding .write → rw.stage other = .holding .write → me = other
  idle : (∀ me, rw.stage me ≠ .holding .write) → rw.writers = 0

variable {rw after : RwLock Process} {me : Process} {holders : Finset Process} {op : RwOp Process}

theorem counted_init : (rwlockInit : RwLock Process).Counted ∅ := by
  refine ⟨fun me => ?_, rfl, fun me => ?_, fun me other => ?_, fun _ => rfl⟩ <;> simp [rwlockInit]

theorem Counted.congr (counted : rw.Counted holders) (readers : after.readers = rw.readers)
    (writers : after.writers = rw.writers)
    (same : ∀ me side, after.stage me = .holding side ↔ rw.stage me = .holding side) : after.Counted holders := by
  refine ⟨fun me => ?_, ?_, fun me => ?_, fun me other => ?_, ?_⟩
  · rw [same]
    exact counted.reading me
  · rw [readers]
    exact counted.readers
  · rw [same, writers]
    exact counted.writing me
  · rw [same, same]
    exact counted.single me other
  · simp only [ne_eq, same, writers]
    exact counted.idle

theorem Counted.no_writer (counted : rw.Counted holders) (zero : rw.writers = 0) :
    rw.stage me ≠ .holding .write := by
  intro writing
  have one := (counted.writing me writing).1
  omega

variable [DecidableEq Process]

theorem goto_stage (stage : RwStage) :
    (rw.goto me stage).stage other = if other = me then stage else rw.stage other := by
  simp [goto, Function.update_apply]

section

variable (counted : rw.Counted holders)
include counted

theorem Counted.goto {stage : RwStage} (before : ∀ side, rw.stage me ≠ .holding side)
    (next : ∀ side, stage ≠ .holding side) : (rw.goto me stage).Counted holders := by
  refine counted.congr rfl rfl fun other side => ?_
  rw [goto_stage]
  split
  · rename_i same
    subst same
    exact iff_of_false (next side) (before side)
  · rfl

theorem Counted.readLock (locking : rw.stage me = .locking .read) : ∃ holders, (rw.readLock me).Counted holders := by
  rw [RwLock.readLock]
  split
  · rename_i free
    have absent : me ∉ holders := by simp [counted.reading, locking]
    have nobody : ∀ other, ({ rw with readers := rw.readers + 1 }.goto me (.holding .read)).stage other ≠
        .holding .write := by
      intro other
      rw [goto_stage]
      split
      · simp
      · exact counted.no_writer free
    refine ⟨insert me holders, fun other => ?_, ?_, fun other writing => absurd writing (nobody other),
      fun first second writing => absurd writing (nobody first), fun _ => free⟩
    · rw [goto_stage]
      split
      · simp [*]
      · simp [*, counted.reading]
    · rw [Finset.card_insert_of_notMem absent]
      rw [counted.readers]
      rfl
  · exact ⟨holders, counted.goto (by simp [locking]) (by simp)⟩

theorem Counted.writeLock (locking : rw.stage me = .locking .write) : (rw.writeLock me).Counted holders := by
  rw [RwLock.writeLock]
  split
  · rename_i free
    have empty : holders = ∅ := by
      have card := counted.readers
      exact Finset.card_eq_zero.mp (by omega)
    have writer : ∀ other, ({ rw with writers := 1 }.goto me (.holding .write)).stage other =
        .holding .write → other = me := by
      intro other
      rw [goto_stage]
      split
      · simp [*]
      · exact fun writing => absurd writing (counted.no_writer free.1)
    refine ⟨fun other => ?_, counted.readers, fun _ _ => ⟨rfl, empty⟩, fun first second one two => ?_,
      fun nobody => ?_⟩
    · rw [counted.reading, goto_stage]
      split
      · simp [*]
      · rfl
    · rw [writer first one, writer second two]
    · exact absurd (by simp [goto_stage]) (nobody me)
  · exact counted.goto (by simp [locking]) (by simp)

theorem Counted.readUnlock (reading : rw.stage me = .holding .read) :
    (rw.readUnlock me).Counted (holders.erase me) := by
  have member : me ∈ holders := (counted.reading me).mpr reading
  have nobody : ∀ other, rw.stage other ≠ .holding .write := by
    intro other writing
    rw [(counted.writing other writing).2] at member
    simp at member
  -- The stage behind the section depends on the count, and holds no side.
  have moved : ∀ stage : RwStage, (∀ side, stage ≠ .holding side) →
      ({ rw with readers := rw.readers - 1 }.goto me stage).Counted (holders.erase me) := by
    intro stage released
    have absent : ∀ other, ({ rw with readers := rw.readers - 1 }.goto me stage).stage other ≠
        .holding .write := by
      intro other
      rw [goto_stage]
      split
      · exact released .write
      · exact nobody other
    refine ⟨fun other => ?_, ?_, fun other writing => absurd writing (absent other),
      fun first second writing => absurd writing (absent first), fun _ => counted.idle nobody⟩
    · rw [goto_stage]
      split
      · simp [*]
      · simp [*, counted.reading]
    · have card := Finset.card_erase_add_one member
      change rw.readers - 1 = _
      rw [counted.readers]
      omega
  rw [RwLock.readUnlock]
  split
  · exact moved .wakingWriter (by simp)
  · exact moved .outside (by simp)

theorem Counted.writeUnlock (writing : rw.stage me = .holding .write) : (rw.writeUnlock me).Counted holders := by
  have nobody : ∀ other, (rw.writeUnlock me).stage other ≠ .holding .write := by
    intro other
    rw [RwLock.writeUnlock, goto_stage]
    split
    · simp
    · rename_i different
      exact fun also => different (counted.single other me also writing)
  refine ⟨fun other => ?_, counted.readers, fun other also => absurd also (nobody other),
    fun first second also => absurd also (nobody first), fun _ => rfl⟩
  rw [counted.reading, RwLock.writeUnlock, goto_stage]
  split
  · simp [*]
  · rfl

end

structure Sound (rw : RwLock Process) : Prop where
  counted : ∃ holders, rw.Counted holders
  parkedReaders : Parked (· = .asleep .read) rw.stage rw.readWait
  parkedWriters : Parked (· = .asleep .write) rw.stage rw.writeWait

omit [DecidableEq Process] in
theorem sound_init : (rwlockInit : RwLock Process).Sound :=
  ⟨⟨∅, counted_init⟩, .empty fun _ => by simp [rwlockInit], .empty fun _ => by simp [rwlockInit]⟩

section

variable (sound : rw.Sound)
include sound

theorem Sound.goto (here : rw.stage me = place) (before : ∀ side, place ≠ .asleep side)
    (moved : ∃ readers writers stage, (∀ side, stage ≠ .asleep side) ∧
      after = { rw with readers, writers }.goto me stage)
    (counted : ∃ holders, after.Counted holders) : after.Sound := by
  obtain ⟨readers, writers, stage, next, rfl⟩ := moved
  subst here
  exact ⟨counted, sound.parkedReaders.move (before .read) (next .read),
    sound.parkedWriters.move (before .write) (next .write)⟩

theorem Sound.readLock (locking : rw.stage me = .locking .read) : (rw.readLock me).Sound := by
  obtain ⟨holders, counted⟩ := sound.counted
  refine sound.goto locking (by simp) ?_ (counted.readLock locking)
  rw [RwLock.readLock]
  split <;> exact ⟨_, _, _, by simp, rfl⟩

theorem Sound.writeLock (locking : rw.stage me = .locking .write) : (rw.writeLock me).Sound := by
  obtain ⟨holders, counted⟩ := sound.counted
  refine sound.goto locking (by simp) ?_ ⟨holders, counted.writeLock locking⟩
  rw [RwLock.writeLock]
  split <;> exact ⟨_, _, _, by simp, rfl⟩

theorem Sound.readUnlock (reading : rw.stage me = .holding .read) : (rw.readUnlock me).Sound := by
  obtain ⟨holders, counted⟩ := sound.counted
  refine sound.goto reading (by simp) ?_ ⟨_, counted.readUnlock reading⟩
  rw [RwLock.readUnlock]
  split <;> exact ⟨_, _, _, by simp, rfl⟩

theorem Sound.sleepOn (leaving : rw.stage me = .leaving side) : (rw.sleepOn me side).Sound := by
  obtain ⟨holders, counted⟩ := sound.counted
  have next : ∀ side, (rw.goto me (.asleep side)).Counted holders := fun side =>
    counted.goto (by simp [leaving]) (by simp)
  cases side with
  | read =>
    exact ⟨⟨holders, (next .read).congr rfl rfl fun _ _ => Iff.rfl⟩,
      sound.parkedReaders.park (by simp [leaving]) rfl,
      sound.parkedWriters.move (by simp [leaving]) (by simp)⟩
  | write =>
    exact ⟨⟨holders, (next .write).congr rfl rfl fun _ _ => Iff.rfl⟩,
      sound.parkedReaders.move (by simp [leaving]) (by simp),
      sound.parkedWriters.park (by simp [leaving]) rfl⟩

/-- A wake-up moves no holder, and then the caller goes on. -/
theorem Sound.wake {later : Process → RwStage} {readWait writeWait : List Process} {place next : RwStage}
    (readers : Parked (· = .asleep .read) later readWait) (writers : Parked (· = .asleep .write) later writeWait)
    (holding : ∀ other side, later other = .holding side ↔ rw.stage other = .holding side)
    (same : later me = place) (before : ∀ side, place ≠ .asleep side ∧ place ≠ .holding side)
    (behind : ∀ side, next ≠ .asleep side ∧ next ≠ .holding side) :
    ({ rw with readWait, writeWait, stage := later }.goto me next).Sound := by
  obtain ⟨holders, counted⟩ := sound.counted
  subst same
  have woken : { rw with readWait, writeWait, stage := later }.Counted holders := counted.congr rfl rfl holding
  exact ⟨⟨holders, woken.goto (fun side => (before side).2) fun side => (behind side).2⟩,
    readers.move (before .read).1 (behind .read).1, writers.move (before .write).1 (behind .write).1⟩

theorem Sound.wakeReaders (waking : rw.stage me = .wakingReaders) : (rw.wakeReaders me).Sound := by
  have listed := List.Subset.refl rw.readWait
  refine sound.wake (sound.parkedReaders.awaken (by simp) (List.append_nil _).symm)
    (sound.parkedWriters.awaken_elsewhere sound.parkedReaders listed (by simp))
    (fun other side => sound.parkedReaders.awaken_eq_iff listed (by simp) (by simp))
    ((sound.parkedReaders.awaken_of_awake listed ?_).trans waking) (by simp) (by simp)
  simp [waking]

theorem Sound.wakeWriter (waking : rw.stage me = .wakingWriter) : (rw.wakeWriter me).Sound := by
  have listed := List.take_subset 1 rw.writeWait
  refine sound.wake (sound.parkedReaders.awaken_elsewhere sound.parkedWriters listed (by simp))
    (sound.parkedWriters.awaken (by simp) (List.take_append_drop 1 rw.writeWait).symm)
    (fun other side => sound.parkedWriters.awaken_eq_iff listed (by simp) (by simp))
    ((sound.parkedWriters.awaken_of_awake listed ?_).trans waking) (by simp) (by simp)
  simp [waking]

theorem Sound.step (step : RwStep rw op after) : after.Sound := by
  obtain ⟨enabled, rfl⟩ := step
  cases op with
  | call side me =>
    obtain ⟨holders, counted⟩ := sound.counted
    have outside : rw.stage me = .outside := enabled
    exact sound.goto outside (by simp) ⟨_, _, _, by simp, rfl⟩
      ⟨holders, counted.goto (by simp [outside]) (by simp)⟩
  | readLock me => exact sound.readLock enabled
  | writeLock me => exact sound.writeLock enabled
  | sleepOn side me => exact sound.sleepOn enabled
  | readUnlock me => exact sound.readUnlock enabled
  | writeUnlock me =>
    obtain ⟨holders, counted⟩ := sound.counted
    exact sound.goto enabled (by simp) ⟨_, _, _, by simp, rfl⟩ ⟨holders, counted.writeUnlock enabled⟩
  | wakeReaders me => exact sound.wakeReaders enabled
  | wakeWriter me => exact sound.wakeWriter enabled

end

omit [DecidableEq Process] in
theorem Counted.writers_iff (counted : rw.Counted holders) :
    rw.writers = 1 ↔ ∃! me, rw.stage me = .holding .write := by
  constructor
  · intro one
    by_contra missing
    have nobody : ∀ me, rw.stage me ≠ .holding .write := fun me writing =>
      missing ⟨me, writing, fun other also => counted.single other me also writing⟩
    have zero := counted.idle nobody
    omega
  · rintro ⟨me, writing, -⟩
    exact (counted.writing me writing).1

end RwLock

/-- Exclusion: the counters count the holders of the two sides, and the sides
are never held together. -/
theorem rwlock_run_exclusive [DecidableEq Process] {rw : RwLock Process} {trace : List (RwOp Process)}
    (run : Run RwStep rwlockInit trace rw) : {me | rw.stage me = .holding .read}.Finite ∧
      rw.readers = ({me | rw.stage me = .holding .read}.ncard : Int) ∧ 0 ≤ rw.readers ∧
      (rw.writers = 1 ↔ ∃! me, rw.stage me = .holding .write) ∧
      ((¬ ∃! me, rw.stage me = .holding .write) → rw.writers = 0) ∧
      ¬ (0 < rw.readers ∧ rw.writers = 1) := by
  have sound : rw.Sound := run.invariant RwLock.sound_init fun _ _ _ sound step => sound.step step
  obtain ⟨holders, counted⟩ := sound.counted
  have set : {me | rw.stage me = .holding .read} = ↑holders := by
    ext me
    exact (counted.reading me).symm
  refine ⟨set ▸ holders.finite_toSet, ?_, ?_, counted.writers_iff, fun missing => ?_, ?_⟩
  · rw [set, Set.ncard_coe_finset, counted.readers]
  · rw [counted.readers]
    exact Int.natCast_nonneg _
  · exact counted.idle fun me writing =>
      missing ⟨me, writing, fun other also => counted.single other me also writing⟩
  · rintro ⟨positive, one⟩
    obtain ⟨me, writing, -⟩ := counted.writers_iff.mp one
    rw [counted.readers, (counted.writing me writing).2, Finset.card_empty] at positive
    exact absurd positive (by decide)

def readersAndWriter : List (RwOp (Fin 3)) :=
  [.call .read 0, .readLock 0, .call .write 2, .writeLock 2, .call .read 1, .readLock 1, .sleepOn .write 2]

theorem rwlock_run_exclusive_two_readers :
    ¬ ∃! me, (readersAndWriter.foldl RwOp.perform rwlockInit).stage me = .holding .write := by
  have run : Run RwStep rwlockInit readersAndWriter (readersAndWriter.foldl RwOp.perform rwlockInit) :=
    Run.of_performs ⟨⟨rfl, rfl⟩, ⟨rfl, rfl⟩, ⟨rfl, rfl⟩, ⟨rfl, rfl⟩, ⟨rfl, rfl⟩, ⟨rfl, rfl⟩,
      ⟨rfl, rfl⟩, trivial⟩
  obtain ⟨-, -, -, writers, -⟩ := rwlock_run_exclusive run
  exact fun writer => absurd (writers.mpr writer) (by decide)

end Rucix.Sync
