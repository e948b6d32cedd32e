import Rucix.Sched.SafeRuns

namespace Rucix.Sched

open Rucix.Data Function List

/-! The entries of the wait queues and the `sleep_on` calls they belong to. -/

def Frame.entry : Frame → Option Nat
  | .sleepOn _ entry _ => some entry
  | .rtMutexLock _ _ => none

namespace Kernel

variable {kernel after : Kernel} {pid queue entry : Nat} {items : Nat → List Nat}

def entryNext (kernel : Kernel) (entry : Nat) : Option Nat := (kernel.entries entry).next

def entryTask (kernel : Kernel) (entry : Nat) : Nat := (kernel.entries entry).task

def queueHead (kernel : Kernel) (queue : Nat) : Option Nat := (kernel.waitQueues queue).head

def stackEntry (kernel : Kernel) (pid : Nat) : Option Nat := (kernel.frames pid).bind Frame.entry

/-- The queues are separate, and the linked entries are those of the blocked
processes, which are all inside `sleep_on`. -/
structure Waits (kernel : Kernel) (items : Nat → List Nat) : Prop where
  lists : Lists kernel.entryNext kernel.queueHead items
  tails : ∀ queue, (kernel.waitQueues queue).tail = (items queue).getLast?
  inside : ∀ queue, ∀ entry ∈ items queue, ∃ scheduled,
    kernel.frames (kernel.entryTask entry) = some (.sleepOn queue entry scheduled)
  blocked : ∀ queue, ∀ entry ∈ items queue, (kernel.procs (kernel.entryTask entry)).state = .blocked
  linked : ∀ pid, (kernel.procs pid).state = .blocked →
    ∃ queue, ∃ entry ∈ items queue, kernel.entryTask entry = pid
  apart : ∀ pid other entry, kernel.stackEntry pid = some entry →
    kernel.stackEntry other = some entry → pid = other

/-- Neither the blocked processes nor the synchronization objects change. -/
structure SameBlocked (before after : Kernel) : Prop where
  blocked : ∀ pid, (after.procs pid).state = .blocked ↔ (before.procs pid).state = .blocked
  sync : after.toSyncState = before.toSyncState

theorem SameBlocked.trans (first : SameBlocked kernel middle) (second : SameBlocked middle after) :
    SameBlocked kernel after :=
  ⟨fun pid => (second.blocked pid).trans (first.blocked pid), second.sync.trans first.sync⟩

theorem SameBlocked.refl (kernel : Kernel) : SameBlocked kernel kernel := ⟨fun _ => Iff.rfl, rfl⟩

theorem SameBlocked.of_tasks (same : SameTasks kernel after) (sync : after.toSyncState = kernel.toSyncState) :
    SameBlocked kernel after :=
  ⟨fun pid => by rw [same.state], sync⟩

theorem SameBlocked.setState (before : (kernel.procs pid).state ≠ .blocked) (now : state ≠ .blocked) :
    SameBlocked kernel (kernel.setState pid state) := by
  refine ⟨fun other => ?_, rfl⟩
  by_cases same : other = pid
  · subst same
    simp [Kernel.setState, before, now]
  · simp [Kernel.setState, same]

theorem pickNextTask_same {next : Nat} (picked : kernel.pickNextTask = some (next, after)) :
    SameTasks kernel after ∧ after.toSyncState = kernel.toSyncState := by
  obtain ⟨queues, tails, fair, rfl⟩ := pickNextTask_eq picked
  have same := SameTasks.setNextReady kernel next none
  exact ⟨⟨same.state, same.schedClass, rfl, rfl⟩, rfl⟩

theorem Requeued.sameBlocked (requeued : Requeued kernel after pid) (idle : (kernel.procs pid).state ≠ .blocked) :
    SameBlocked kernel after := by
  refine ⟨fun other => ?_, requeued.sync⟩
  rw [requeued.state]
  split
  · rename_i same
    simp [same, idle]
  · rfl

theorem demote_sync (pid : Nat) : (kernel.demote pid).toSyncState = kernel.toSyncState := by
  simp only [demote]
  split <;> rfl

theorem Queued.requeueCurrent_blocked {items : Place → List Nat} (queued : kernel.Queued items none)
    (done : kernel.requeueCurrent fuel = some after) : SameBlocked kernel after ∧
      ((after.procs after.current).state = .ready ∨
        after = kernel ∧ (kernel.procs kernel.current).state ≠ .running) := by
  by_cases running : (kernel.procs kernel.current).state = .running
  · rw [queued.requeueCurrent_eq fuel running] at done
    cases done
    have demoted := SameQueues.demote (kernel.setState kernel.current .ready) kernel.current
    have requeued := enqueueTaskMlfq_requeued ((kernel.setState kernel.current .ready).demote kernel.current)
      kernel.current
    have first : SameBlocked kernel (kernel.setState kernel.current .ready) :=
      SameBlocked.setState (by simp [running]) (by simp)
    refine ⟨(first.trans (.of_tasks demoted.toSameTasks (demote_sync ..))).trans
      (requeued.sameBlocked ?_), .inl ?_⟩
    · rw [demoted.state]
      simp [setState]
    · rw [requeued.current, demoted.current, requeued.state]
      exact if_pos rfl
  · rw [Kernel.requeueCurrent, if_neg running] at done
    cases done
    exact ⟨.refl kernel, .inr ⟨rfl, running⟩⟩

/-- `process_schedule` ends in a running process or, when there is none to run
and the caller cannot go on, in the caller. -/
theorem processSchedule_effect (consistent : kernel.Consistent) (done : kernel.processSchedule fuel = some after) :
    SameBlocked kernel after ∧
      ((after.procs after.current).state = .running ∨
        (after = kernel ∧ kernel.pickNextTask = none ∧
          (kernel.procs kernel.current).state ≠ .running ∧
          (kernel.procs kernel.current).state ≠ .ready)) := by
  obtain ⟨middle, requeued, rfl⟩ := Option.map_eq_some_iff.mp done
  obtain ⟨items, queued⟩ := consistent
  obtain ⟨newItems, middleQueued, -⟩ := queued.requeueCurrent requeued
  obtain ⟨same, ended⟩ := queued.requeueCurrent_blocked requeued
  simp only [switchToNext]
  split
  · rename_i next picked choice
    obtain ⟨tasks, sync⟩ := pickNextTask_same choice
    obtain ⟨-, attached⟩ := middleQueued.pickNextTask choice
    have idle : (picked.procs next).state ≠ .blocked := by
      rw [tasks.state]
      exact fun blocked => attached (.inr blocked)
    have switched : SameBlocked picked (picked.setState next .running) :=
      SameBlocked.setState idle (by simp)
    refine ⟨(same.trans (.of_tasks tasks sync)).trans ⟨switched.blocked, switched.sync⟩, .inl ?_⟩
    simp [setState]
  · rename_i none
    have notReady := middleQueued.not_ready_of_pickNextTask_eq_none none
    rw [if_neg (notReady _)]
    refine ⟨same, .inr ?_⟩
    obtain ⟨rfl, running⟩ := ended.resolve_left (notReady _)
    exact ⟨rfl, none, running, notReady _⟩

/-- Only blocked targets change their state. -/
structure Signalled (targets : List Nat) (before after : Kernel) : Prop where
  state : ∀ pid, (pid ∈ targets → (before.procs pid).state ≠ .blocked) →
    (after.procs pid).state = (before.procs pid).state
  schedClass : ∀ pid, (after.procs pid).schedClass = (before.procs pid).schedClass
  current : after.current = before.current
  sync : after.toSyncState = before.toSyncState

theorem signalTask_signalled (mlfq : (kernel.procs pid).schedClass = .mlfq)
    (done : kernel.signalTask fuel sig pid = some after) : Signalled [pid] kernel after := by
  have same : SameQueues kernel (kernel.setProc pid
      { kernel.procs pid with
        pendingSignals := (kernel.procs pid).pendingSignals ||| (1#32 <<< sig) }) :=
    SameQueues.setProc rfl rfl rfl
  simp only [signalTask] at done
  split at done
  · rename_i blocked
    have requeued := makeReady_requeued ((same.schedClass pid).trans mlfq) done
    refine ⟨fun other idle => ?_, fun other => ?_, requeued.current, requeued.sync⟩
    · rw [requeued.state, same.state]
      split
      · rename_i isPid
        subst isPid
        exact absurd blocked (idle (List.mem_singleton_self _))
      · rfl
    · rw [requeued.schedClass, same.schedClass]
  · cases done
    exact ⟨fun other _ => same.state other, same.schedClass, rfl, rfl⟩

theorem signalEach_signalled (mlfq : ∀ pid, (kernel.procs pid).schedClass = .mlfq)
    (done : signalEach fuel sig kernel targets = some after) : Signalled targets kernel after := by
  induction targets generalizing kernel with
  | nil =>
    cases done
    exact ⟨fun _ _ => rfl, fun _ => rfl, rfl, rfl⟩
  | cons pid rest ih =>
    obtain ⟨middle, first, done⟩ := Option.bind_eq_some_iff.mp done
    have head := signalTask_signalled (mlfq pid) first
    have tail := ih (fun pid => (head.schedClass pid).trans (mlfq pid)) done
    refine ⟨fun pid idle => ?_, fun pid => (tail.schedClass pid).trans (head.schedClass pid),
      tail.current.trans head.current, tail.sync.trans head.sync⟩
    have same := head.state pid fun member => idle (by simp [List.mem_singleton.mp member])
    exact (tail.state pid fun later => same ▸ idle (List.mem_cons_of_mem _ later)).trans same

theorem sysKill_signalled (consistent : kernel.Consistent)
    (done : kernel.sysKill fuel target sig = some (status, after)) :
    Signalled (kernel.killTargets target sig) kernel after :=
  signalEach_signalled consistent.classes (sysKill_signals done)

theorem markScheduled_stackEntry (pid : Nat) :
    kernel.markScheduled.stackEntry pid = kernel.stackEntry pid := by
  by_cases same : pid = kernel.current
  · subst same
    simp only [stackEntry, markScheduled, update_self]
    cases kernel.frames kernel.current with
    | none => rfl
    | some frame => cases frame <;> rfl
  · simp [stackEntry, markScheduled, same]

theorem linkEntry_task (queue other : Nat) : (kernel.linkEntry queue entry).entryTask other =
      if other = entry then kernel.current else kernel.entryTask other := by
  simp only [linkEntry]
  split
  · rename_i tail _
    by_cases isTail : other = tail <;> by_cases isEntry : other = entry <;>
      simp_all [entryTask, setEntry, setQueue]
  · by_cases isEntry : other = entry <;> simp [entryTask, setEntry, setQueue, isEntry]

theorem setEntry_entryNext (value : WaitQueueEntry) :
    (kernel.setEntry entry value).entryNext = update kernel.entryNext entry value.next := by
  funext other
  by_cases same : other = entry <;> simp [entryNext, setEntry, same]

theorem setQueue_queueHead (value : WaitQueue) :
    (kernel.setQueue queue value).queueHead = update kernel.queueHead queue value.head := by
  funext other
  by_cases same : other = queue <;> simp [queueHead, setQueue, same]

theorem setQueue_tails (tails : ∀ queue, (kernel.waitQueues queue).tail = (items queue).getLast?)
    (last : value.tail = newItems.getLast?) (other : Nat) :
    ((kernel.setQueue queue value).waitQueues other).tail =
      (update items queue newItems other).getLast? := by
  by_cases same : other = queue
  · subst same
    simp [setQueue, last]
  · simpa [setQueue, same] using tails other

theorem sleepOn_state (queue pid : Nat) : ((kernel.sleepOn queue entry).procs pid).state =
      if pid = kernel.current then .blocked else (kernel.procs pid).state := by
  have linked := (SameQueues.linkEntry kernel queue entry).state pid
  by_cases same : pid = kernel.current
  · simp [Kernel.sleepOn, setFrame, setState, same]
  · simpa [Kernel.sleepOn, setFrame, setState, same] using linked

theorem sleepOn_frames (queue pid : Nat) : (kernel.sleepOn queue entry).frames pid =
    if pid = kernel.current then some (.sleepOn queue entry false) else kernel.frames pid := by
  have frames : (kernel.linkEntry queue entry).frames = kernel.frames := by
    simp only [Kernel.linkEntry]
    split <;> rfl
  by_cases same : pid = kernel.current <;> simp [Kernel.sleepOn, setFrame, setState, setProc, same, frames]

namespace Waits

variable (waits : kernel.Waits items)
include waits

theorem stackEntry_eq (listed : entry ∈ items queue) :
    kernel.stackEntry (kernel.entryTask entry) = some entry := by
  obtain ⟨scheduled, frame⟩ := waits.inside queue entry listed
  simp [stackEntry, frame, Frame.entry]

theorem task_injective (listed : entry ∈ items queue) (also : other ∈ items queue')
    (same : kernel.entryTask entry = kernel.entryTask other) : entry = other := by
  have frame := waits.stackEntry_eq listed
  rw [same, waits.stackEntry_eq also] at frame
  exact (Option.some.inj frame).symm

theorem congr (same : SameBlocked kernel after) : after.Waits items := by
  obtain ⟨sync⟩ := after
  cases same.sync
  exact ⟨waits.lists, waits.tails, waits.inside,
    fun queue entry listed => (same.blocked _).mpr (waits.blocked queue entry listed),
    fun pid blocked => waits.linked pid ((same.blocked pid).mp blocked), waits.apart⟩

theorem clearFrame (idle : (kernel.procs pid).state ≠ .blocked) :
    (kernel.setFrame pid none).Waits items := by
  refine ⟨waits.lists, waits.tails, fun queue entry listed => ?_, waits.blocked, waits.linked,
    fun first second entry one two => ?_⟩
  · have different : kernel.entryTask entry ≠ pid := by
      intro same
      exact idle (same ▸ waits.blocked queue entry listed)
    obtain ⟨scheduled, frame⟩ := waits.inside queue entry listed
    exact ⟨scheduled, (update_of_ne different _ _).trans frame⟩
  · have outside : ∀ other, (kernel.setFrame pid none).stackEntry other = some entry →
        kernel.stackEntry other = some entry := by
      intro other found
      by_cases same : other = pid
      · simp [stackEntry, setFrame, same] at found
      · simpa [stackEntry, setFrame, same] using found
    exact waits.apart first second entry (outside first one) (outside second two)

theorem markScheduled : kernel.markScheduled.Waits items := by
  refine ⟨waits.lists, waits.tails, fun queue entry listed => ?_, waits.blocked, waits.linked,
    fun first second entry one two => ?_⟩
  · obtain ⟨scheduled, frame⟩ := waits.inside queue entry listed
    by_cases isCurrent : kernel.entryTask entry = kernel.current
    · refine ⟨true, ?_⟩
      change update kernel.frames kernel.current _ (kernel.entryTask entry) = _
      rw [isCurrent] at frame ⊢
      rw [update_self, frame]
      rfl
    · exact ⟨scheduled, (update_of_ne isCurrent _ _).trans frame⟩
  · rw [markScheduled_stackEntry] at one two
    exact waits.apart first second entry one two

theorem linkEntry (unlinked : ∀ queue, entry ∉ items queue) :
    Lists (kernel.linkEntry queue entry).entryNext (kernel.linkEntry queue entry).queueHead
        (update items queue (items queue ++ [entry])) ∧
      ∀ other, ((kernel.linkEntry queue entry).waitQueues other).tail =
        (update items queue (items queue ++ [entry]) other).getLast? := by
  have tail := waits.tails queue
  cases found : (items queue).getLast? with
  | none =>
    have empty := getLast?_eq_none_iff.mp found
    rw [found] at tail
    have unfolded : kernel.linkEntry queue entry =
        (kernel.setEntry entry { task := kernel.current, next := none }).setQueue queue
          { head := some entry, tail := some entry } := by
      simp only [Kernel.linkEntry]
      rw [show ((kernel.setEntry entry _).waitQueues queue).tail = none from tail]
    rw [unfolded, setQueue_queueHead, empty]
    refine ⟨?_, setQueue_tails waits.tails rfl⟩
    change Lists (kernel.setEntry entry _).entryNext _ _
    rw [setEntry_entryNext]
    exact waits.lists.single unlinked
  | some last =>
    obtain ⟨before, shape⟩ := getLast?_eq_some_iff.mp found
    rw [found] at tail
    let fresh := kernel.setEntry entry { task := kernel.current, next := none }
    have unfolded : kernel.linkEntry queue entry =
        (fresh.setEntry last { fresh.entries last with next := some entry }).setQueue queue
          { fresh.waitQueues queue with tail := some entry } := by
      simp only [Kernel.linkEntry]
      rw [show ((kernel.setEntry entry _).waitQueues queue).tail = some last from tail]
    rw [unfolded, setQueue_queueHead]
    refine ⟨?_, setQueue_tails waits.tails (by simp)⟩
    change Lists (fresh.setEntry last _).entryNext
      (update kernel.queueHead queue (kernel.queueHead queue)) _
    rw [update_eq_self, setEntry_entryNext, setEntry_entryNext]
    exact waits.lists.pushBack shape unlinked

theorem unlinked_of_fresh (fresh : ∀ pid, kernel.stackEntry pid ≠ some entry)
    (queue : Nat) : entry ∉ items queue :=
  fun listed => fresh _ (waits.stackEntry_eq listed)

theorem sleepOn (fresh : ∀ pid, kernel.stackEntry pid ≠ some entry)
    (idle : (kernel.procs kernel.current).state ≠ .blocked) :
    (kernel.sleepOn queue entry).Waits (update items queue (items queue ++ [entry])) := by
  obtain ⟨lists, tails⟩ := waits.linkEntry (waits.unlinked_of_fresh fresh)
  have task : ∀ other, (kernel.sleepOn queue entry).entryTask other =
      if other = entry then kernel.current else kernel.entryTask other :=
    linkEntry_task queue
  have old : ∀ place, ∀ other ∈ items place, other ≠ entry ∧ kernel.entryTask other ≠ kernel.current := by
    intro place other listed
    refine ⟨ne_of_mem_of_not_mem listed (waits.unlinked_of_fresh fresh place), fun same => ?_⟩
    exact idle (same ▸ waits.blocked place other listed)
  refine ⟨lists, tails, fun place other listed => ?_, fun place other listed => ?_,
    fun pid blocked => ?_, fun first second other one two => ?_⟩
  · rcases mem_update_append.mp listed with known | ⟨rfl, rfl⟩
    · obtain ⟨notEntry, notCurrent⟩ := old place other known
      rw [task, if_neg notEntry, sleepOn_frames, if_neg notCurrent]
      exact waits.inside place other known
    · exact ⟨false, by rw [task, if_pos rfl, sleepOn_frames, if_pos rfl]⟩
  · rw [sleepOn_state]
    rcases mem_update_append.mp listed with known | ⟨rfl, rfl⟩
    · obtain ⟨notEntry, notCurrent⟩ := old place other known
      rw [task, if_neg notEntry, if_neg notCurrent]
      exact waits.blocked place other known
    · rw [task, if_pos rfl, if_pos rfl]
  · rw [sleepOn_state] at blocked
    split at blocked
    · rename_i same
      exact ⟨queue, entry, mem_update_append.mpr (.inr ⟨rfl, rfl⟩), by rw [task, if_pos rfl, same]⟩
    · obtain ⟨place, other, listed, owner⟩ := waits.linked pid blocked
      refine ⟨place, other, mem_update_append.mpr (.inl listed), ?_⟩
      rw [task, if_neg (old place other listed).1, owner]
  · have stack : ∀ pid, (kernel.sleepOn queue entry).stackEntry pid =
        if pid = kernel.current then some entry else kernel.stackEntry pid := by
      intro pid
      rw [stackEntry, sleepOn_frames]
      split <;> rfl
    rw [stack] at one two
    split at one <;> split at two
    · rename_i firstCurrent secondCurrent
      rw [firstCurrent, secondCurrent]
    · cases one
      exact absurd two (fresh second)
    · cases two
      exact absurd one (fresh first)
    · exact waits.apart first second other one two

theorem wake (shape : items queue = entry :: rest)
    (requeued : Requeued (kernel.popEntry queue entry) after (kernel.entryTask entry)) :
    after.Waits (update items queue rest) := by
  have split : items queue = [] ++ entry :: rest := shape
  have listed : entry ∈ items queue := by simp [shape]
  have mem : ∀ {place other}, other ∈ update items queue rest place ↔
      other ∈ items place ∧ other ≠ entry := waits.lists.mem_remove split
  obtain ⟨sync⟩ := after
  cases requeued.sync
  have state := requeued.state
  have tails : ∀ other, ((kernel.popEntry queue entry).waitQueues other).tail =
      (update items queue rest other).getLast? := by
    refine setQueue_tails waits.tails ?_
    rw [waits.tails queue, shape]
    exact (waits.lists.walk shape).getLast?_pop
  have lists : Lists (kernel.popEntry queue entry).entryNext (kernel.popEntry queue entry).queueHead
      (update items queue rest) := by
    rw [popEntry, setQueue_queueHead]
    change Lists kernel.entryNext _ _
    rw [← update_eq_self entry kernel.entryNext]
    exact waits.lists.pop shape _
  refine ⟨lists, tails, fun place other member => waits.inside place other (mem.mp member).1,
    fun place other member => ?_, fun pid blocked => ?_, waits.apart⟩
  · obtain ⟨known, different⟩ := mem.mp member
    rw [state]
    exact (if_neg fun same => different (waits.task_injective known listed same)).trans
      (waits.blocked place other known)
  · rw [state] at blocked
    split at blocked
    · cases blocked
    · rename_i different
      obtain ⟨place, other, known, owner⟩ := waits.linked pid blocked
      refine ⟨place, other, mem.mpr ⟨known, ?_⟩, owner⟩
      rintro rfl
      exact different owner.symm

end Waits

end Kernel

end Rucix.Sched
