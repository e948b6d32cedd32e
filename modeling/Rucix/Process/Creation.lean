import Mathlib.Data.Finset.Basic
import Rucix.Data.Circular
import Rucix.Data.Run

namespace Rucix.Process.Creation

open Rucix.Data Function List

/-! The construction of processes, `kernel/process/process.c`.

Every new process is put behind the last one of `process_list`, from which nothing is
ever taken.
-/

variable {Proc : Type}

/-- The fields that link processes.  The list head `held_locks` is known by the process
that contains it, and `allocated` are the structures that `kmalloc` has returned. -/
structure Processes (Proc : Type) where
  next : Proc → Option Proc
  prev : Proc → Option Proc
  pid : Proc → Nat
  heldLocks : ListHeads Proc
  processList : Option Proc
  nextPid : Nat
  allocated : Finset Proc

variable [DecidableEq Proc]

/-- `memset` and `INIT_LIST_HEAD(&proc->held_locks)`, with the given pid. -/
def Processes.clear (table : Processes Proc) (proc : Proc) (pid : Nat) : Processes Proc :=
  { table with
    next := update table.next proc none
    prev := update table.prev proc none
    pid := update table.pid proc pid
    heldLocks := table.heldLocks.init proc
    allocated := insert proc table.allocated }

/-- From any contents of the memory. -/
def processInit (memory : Processes Proc) (kernel : Proc) : Processes Proc :=
  { { memory with allocated := ∅ }.clear kernel 0 with processList := some kernel, nextPid := 1 }

/-- `while(curr->next) curr = curr->next;` -/
def lastFrom (table : Processes Proc) (fuel : Nat) (curr : Proc) : Option Proc :=
  lastNode table.next fuel curr

/-- The common part of the two functions that create a process.  `memory` and `stack` are
what the two allocators return; without a stack the structure is lost. -/
def create (fuel : Nat) (table : Processes Proc) (memory : Option Proc) (stack : Bool) :
    Option (Option Proc × Processes Proc) :=
  match memory with
  | none => some (none, table)
  | some proc =>
    let table := { table.clear proc table.nextPid with nextPid := table.nextPid + 1 }
    if stack then
      (table.processList.bind (lastFrom table fuel)).map fun curr =>
        (some proc, { table with
          next := update table.next curr (some proc)
          prev := update table.prev proc (some curr) })
    else some (none, table)

def processCreate (fuel : Nat) (table : Processes Proc) (memory : Option Proc) (stack : Bool) :
    Option (Option Proc × Processes Proc) :=
  create fuel table memory stack

def processCreateKthread (fuel : Nat) (table : Processes Proc) (memory : Option Proc) (stack : Bool) :
    Option (Option Proc × Processes Proc) :=
  create fuel table memory stack

/-- `memcpy(child, current_process, sizeof(struct process))` -/
def Processes.copy (table : Processes Proc) (child current : Proc) : Processes Proc :=
  { table with
    next := update table.next child (table.next current)
    prev := update table.prev child (table.prev current)
    pid := update table.pid child (table.pid current)
    heldLocks :=
      { next := update table.heldLocks.next child (table.heldLocks.next current)
        prev := update table.heldLocks.prev child (table.heldLocks.prev current) }
    allocated := insert child table.allocated }

def processFork (fuel : Nat) (table : Processes Proc) (current : Proc) (memory : Option Proc) (stack : Bool) :
    Option (Int × Processes Proc) :=
  match memory with
  | none => some (-1, table)
  | some child =>
    let copied := table.copy child current
    let table := { copied with
      pid := update copied.pid child table.nextPid
      nextPid := table.nextPid + 1
      next := update copied.next child none }
    if stack then
      (table.processList.bind (lastFrom table fuel)).map fun curr =>
        (table.pid child, { table with next := update table.next curr (some child) })
    else some (-1, table)

inductive CreationEvent (Proc : Type) where
  | create (memory : Option Proc) (stack : Bool)
  | createKthread (memory : Option Proc) (stack : Bool)
  | fork (current : Proc) (memory : Option Proc) (stack : Bool)

def Processes.apply (fuel : Nat) (table : Processes Proc) : CreationEvent Proc → Option (Processes Proc)
  | .create memory stack => (processCreate fuel table memory stack).map Prod.snd
  | .createKthread memory stack => (processCreateKthread fuel table memory stack).map Prod.snd
  | .fork current memory stack => (processFork fuel table current memory stack).map Prod.snd

def CreationEvent.memory : CreationEvent Proc → Option Proc
  | .create memory _ => memory
  | .createKthread memory _ => memory
  | .fork _ memory _ => memory

/-- A `process_fork` that gets its memory. -/
def CreationEvent.Forks : CreationEvent Proc → Prop
  | .create _ _ => False
  | .createKthread _ _ => False
  | .fork _ memory stack => memory ≠ none ∧ stack = true

def Processes.Listed (table : Processes Proc) (proc : Proc) : Prop :=
  ∃ procs, Linked table.next table.processList procs none ∧ proc ∈ procs

/-- `kmalloc` returns new memory, and the current process is in the list. -/
structure CreationStep (table : Processes Proc) (event : CreationEvent Proc) (after : Processes Proc) : Prop where
  fresh : ∀ proc, event.memory = some proc → proc ∉ table.allocated
  current : ∀ current memory stack, event = .fork current memory stack → table.Listed current
  applied : ∃ fuel, table.apply fuel event = some after

structure Chained (table : Processes Proc) (procs : List Proc) : Prop where
  linked : Linked table.next table.processList procs none
  nonempty : procs ≠ []
  allocated : ∀ proc ∈ procs, proc ∈ table.allocated
  pids : ∀ proc ∈ procs, table.pid proc < table.nextPid
  distinct : (procs.map table.pid).Nodup

/-- Every successor points back, and the first process has no predecessor. -/
structure DoublyLinked (table : Processes Proc) (procs : List Proc) : Prop where
  back : ∀ proc ∈ procs, ∀ successor, table.next proc = some successor → table.prev successor = some proc
  first : ∀ head, table.processList = some head → table.prev head = none

/-- The lists of held locks are empty, and no one contains the head of another. -/
def HeldApart (table : Processes Proc) (procs : List Proc) : Prop :=
  ∀ proc ∈ procs, Circular table.heldLocks proc [] ∧
    ∀ other ∈ procs, other ≠ proc → table.heldLocks.next other ≠ some proc ∧ table.heldLocks.prev other ≠ some proc

/-- A structure that stays outside the list was written. -/
structure Lost (before after : Processes Proc) (lost : Proc) : Prop where
  processList : after.processList = before.processList
  nextPid : before.nextPid ≤ after.nextPid
  allocated : after.allocated = insert lost before.allocated
  next : ∀ proc ≠ lost, after.next proc = before.next proc
  prev : ∀ proc ≠ lost, after.prev proc = before.prev proc
  pid : ∀ proc ≠ lost, after.pid proc = before.pid proc
  heldNext : ∀ proc ≠ lost, after.heldLocks.next proc = before.heldLocks.next proc
  heldPrev : ∀ proc ≠ lost, after.heldLocks.prev proc = before.heldLocks.prev proc

structure Extended (before after : Processes Proc) (last new : Proc) : Prop where
  processList : after.processList = before.processList
  nextPid : after.nextPid = before.nextPid + 1
  allocated : after.allocated = insert new before.allocated
  next : after.next = update (update before.next new none) last (some new)
  prev : ∀ proc ≠ new, after.prev proc = before.prev proc
  pid : after.pid = update before.pid new before.nextPid
  heldNext : ∀ proc ≠ new, after.heldLocks.next proc = before.heldLocks.next proc
  heldPrev : ∀ proc ≠ new, after.heldLocks.prev proc = before.heldLocks.prev proc

/-- What a call does: nothing, the loss of a structure, or a longer list. -/
inductive Outcome (table : Processes Proc) (before : List Proc) (last : Proc) (event : CreationEvent Proc) : Prop
  | unchanged (plain : ¬event.Forks) (applied : ∀ fuel, table.apply fuel event = some table)
  | lost (plain : ¬event.Forks) (proc : Proc) (after : Processes Proc) (memory : event.memory = some proc)
      (written : Lost table after proc) (applied : ∀ fuel, table.apply fuel event = some after)
  | created (plain : ¬event.Forks) (proc : Proc) (after : Processes Proc) (memory : event.memory = some proc)
      (extended : Extended table after last proc) (prev : after.prev proc = some last)
      (held : after.heldLocks.next proc = some proc ∧ after.heldLocks.prev proc = some proc)
      (applied : ∀ fuel, table.apply fuel event = if before.length < fuel then some after else none)
  | forked (forks : event.Forks) (current child : Proc) (after : Processes Proc)
      (memory : event = .fork current (some child) true) (extended : Extended table after last child)
      (prev : after.prev child = table.prev current)
      (held : after.heldLocks.next child = table.heldLocks.next current)
      (applied : ∀ fuel, table.apply fuel event = if before.length < fuel then some after else none)

section

omit [DecidableEq Proc]

theorem Chained.last (chained : Chained table procs) :
    ∃ before last, procs = before ++ [last] ∧ table.next last = none := by
  rcases eq_nil_or_concat procs with rfl | ⟨before, last, rfl⟩
  · exact absurd rfl chained.nonempty
  · rw [concat_eq_append] at chained ⊢
    exact ⟨before, last, rfl, (Linked.snoc.mp chained.linked).2⟩

theorem back_iff {next prev : Proc → Option Proc} (linked : Linked next start procs none) (link : Option Proc) :
    ((∀ proc ∈ procs, ∀ successor, next proc = some successor → prev successor = some proc) ∧
        ∀ first, start = some first → prev first = link) ↔
      procs.map prev = (link :: procs.map some).dropLast := by
  induction procs generalizing start link with
  | nil =>
    cases (linked : start = none)
    simp
  | cons proc rest ih =>
    obtain ⟨rfl, tail⟩ := linked
    have behind := ih tail (some proc)
    simp only [map_cons, dropLast_cons_cons, cons.injEq, ← behind, forall_mem_cons, Option.some.injEq, forall_eq']
    exact ⟨fun ⟨⟨here, others⟩, first⟩ => ⟨first, others, here⟩,
      fun ⟨first, others, here⟩ => ⟨⟨here, others⟩, first⟩⟩

theorem heldApart_iff : HeldApart table procs ↔
    ∀ proc ∈ procs, table.heldLocks.next proc = some proc ∧ table.heldLocks.prev proc = some proc := by
  constructor
  · intro apart proc member
    exact Circular.nil_iff.mp (apart proc member).1
  · intro self proc member
    refine ⟨Circular.nil_iff.mpr (self proc member), fun other inside different => ?_⟩
    obtain ⟨next, prev⟩ := self other inside
    rw [next, prev]
    exact ⟨fun same => different (Option.some.inj same), fun same => different (Option.some.inj same)⟩

end

variable {table after : Processes Proc}

theorem Chained.lost (chained : Chained table procs) (lost : Lost table after proc) (outside : proc ∉ procs) :
    Chained after procs := by
  have apart : ∀ other ∈ procs, other ≠ proc := fun other member => ne_of_mem_of_not_mem member outside
  refine ⟨?_, chained.nonempty, fun other member => ?_, fun other member => ?_, ?_⟩
  · rw [lost.processList]
    exact chained.linked.congr fun other member => lost.next other (apart other member)
  · rw [lost.allocated]
    exact Finset.mem_insert_of_mem (chained.allocated other member)
  · rw [lost.pid other (apart other member)]
    exact Nat.lt_of_lt_of_le (chained.pids other member) lost.nextPid
  · rw [map_congr_left fun other member => lost.pid other (apart other member)]
    exact chained.distinct

theorem heldApart_lost (lost : Lost table after proc) (outside : proc ∉ procs) :
    HeldApart after procs ↔ HeldApart table procs := by
  rw [heldApart_iff, heldApart_iff]
  refine forall₂_congr fun other member => ?_
  have apart : other ≠ proc := ne_of_mem_of_not_mem member outside
  rw [lost.heldNext other apart, lost.heldPrev other apart]

theorem heldApart_extended (extended : Extended table after last new) (outside : new ∉ procs) :
    HeldApart after (procs ++ [new]) ↔ HeldApart table procs ∧
      after.heldLocks.next new = some new ∧ after.heldLocks.prev new = some new := by
  rw [heldApart_iff, heldApart_iff, forall_mem_append, forall_mem_singleton]
  refine and_congr_left fun _ => forall₂_congr fun other member => ?_
  have apart : other ≠ new := ne_of_mem_of_not_mem member outside
  rw [extended.heldNext other apart, extended.heldPrev other apart]

section

variable {before : List Proc} {last : Proc} (chained : Chained table (before ++ [last]))
include chained

section

omit [DecidableEq Proc]

/-- The back pointers are those of the list itself, one place further on. -/
theorem Chained.doublyLinked_iff :
    DoublyLinked table (before ++ [last]) ↔ (before ++ [last]).map table.prev = none :: before.map some := by
  have shorter : (none :: (before ++ [last]).map some).dropLast = none :: before.map some := by
    rw [map_append, map_singleton, ← cons_append, dropLast_concat]
  rw [← shorter, ← back_iff chained.linked none]
  exact ⟨fun doubly => ⟨doubly.back, doubly.first⟩, fun ⟨back, first⟩ => ⟨back, first⟩⟩

theorem Chained.last_notMem : last ∉ before := by
  have nodup := chained.linked.nodup
  rw [← concat_eq_append, nodup_concat] at nodup
  exact nodup.1

/-- The last process is not the predecessor of one in the list. -/
theorem DoublyLinked.prev_ne_last (doubly : DoublyLinked table (before ++ [last]))
    (member : current ∈ before ++ [last]) : table.prev current ≠ some last := by
  intro same
  have listed := mem_map_of_mem (f := table.prev) member
  rw [chained.doublyLinked_iff.mp doubly, same] at listed
  exact chained.last_notMem (by simpa using listed)

end

theorem Chained.extended (extended : Extended table after last new) (outside : new ∉ before ++ [last]) :
    Chained after (before ++ [last] ++ [new]) := by
  have apart : ∀ other ∈ before ++ [last], other ≠ new := fun other member => ne_of_mem_of_not_mem member outside
  have pidEq : ∀ other ∈ before ++ [last], after.pid other = table.pid other := by
    intro other member
    rw [extended.pid, update_of_ne (apart other member)]
  have newPid : after.pid new = table.nextPid := by rw [extended.pid, update_self]
  refine ⟨?_, by simp, fun other member => ?_, fun other member => ?_, ?_⟩
  · rw [extended.processList, extended.next]
    exact (chained.linked.update_outside outside none).push outside (update_self ..)
  · rw [extended.allocated]
    rcases mem_append.mp member with old | same
    · exact Finset.mem_insert_of_mem (chained.allocated other old)
    · rw [mem_singleton.mp same]
      exact Finset.mem_insert_self ..
  · rw [extended.nextPid]
    rcases mem_append.mp member with old | same
    · rw [pidEq other old]
      exact Nat.lt_succ_of_lt (chained.pids other old)
    · rw [mem_singleton.mp same, newPid]
      exact Nat.lt_succ_self _
  · rw [map_append, map_congr_left pidEq, map_singleton, ← concat_eq_append]
    refine chained.distinct.concat fun member => ?_
    obtain ⟨other, inside, same⟩ := mem_map.mp member
    exact absurd (chained.pids other inside) (by omega)

theorem doublyLinked_lost (lost : Lost table after proc)
    (outside : proc ∉ before ++ [last]) :
    DoublyLinked after (before ++ [last]) ↔ DoublyLinked table (before ++ [last]) := by
  have same : ∀ other ∈ before ++ [last], after.prev other = table.prev other :=
    fun other member => lost.prev other (ne_of_mem_of_not_mem member outside)
  rw [(chained.lost lost outside).doublyLinked_iff, chained.doublyLinked_iff, map_congr_left same]

/-- The new process has to point back at the last one. -/
theorem doublyLinked_extended (extended : Extended table after last new)
    (outside : new ∉ before ++ [last]) :
    DoublyLinked after (before ++ [last] ++ [new]) ↔
      DoublyLinked table (before ++ [last]) ∧ after.prev new = some last := by
  have same : ∀ other ∈ before ++ [last], after.prev other = table.prev other :=
    fun other member => extended.prev other (ne_of_mem_of_not_mem member outside)
  rw [(chained.extended extended outside).doublyLinked_iff, chained.doublyLinked_iff, map_append,
    map_congr_left same]
  rw [map_append (f := some), ← cons_append, map_singleton, map_singleton, append_singleton_inj]

theorem Chained.find_last (outside : new ∉ before ++ [last])
    {prepared : Processes Proc} (next : prepared.next = update table.next new none)
    (processList : prepared.processList = table.processList) :
    prepared.processList.bind (lastFrom prepared fuel) = if before.length < fuel then some last else none := by
  have linked := chained.linked.update_outside outside none
  rw [← next, ← processList] at linked
  cases first : prepared.processList with
  | none =>
    have same := linked.head_eq
    rw [first] at same
    simp at same
  | some head =>
    rw [first] at linked
    exact linked.lastNode_eq

theorem Chained.create_outcome (plain : ¬event.Forks)
    (given : event.memory = memory) (fresh : ∀ proc, memory = some proc → proc ∉ before ++ [last])
    (apply : ∀ fuel, table.apply fuel event = (create fuel table memory stack).map Prod.snd) :
    Outcome table before last event := by
  cases memory with
  | none => exact .unchanged plain apply
  | some proc =>
    let prepared := { table.clear proc table.nextPid with nextPid := table.nextPid + 1 }
    have next : prepared.next = update table.next proc none := rfl
    cases stack with
    | false =>
      refine .lost plain proc prepared given ⟨rfl, Nat.le_succ _, rfl, ?_, ?_, ?_, ?_, ?_⟩ apply <;>
        exact fun other apart => update_of_ne apart _ _
    | true =>
      refine .created plain proc { prepared with
        next := update prepared.next last (some proc)
        prev := update prepared.prev proc (some last) } given
        ⟨rfl, rfl, rfl, rfl, fun other apart => ?_, rfl, ?_, ?_⟩ (update_self ..)
        ⟨update_self .., update_self ..⟩ fun fuel => ?_
      · exact (update_of_ne apart _ _).trans (update_of_ne apart _ _)
      · exact fun other apart => update_of_ne apart _ _
      · exact fun other apart => update_of_ne apart _ _
      · have found : prepared.processList.bind (lastFrom prepared fuel) = _ :=
          chained.find_last (fresh proc rfl) next rfl
        rw [apply]
        simp only [create, if_true]
        rw [found]
        split <;> rfl

theorem Chained.fork_outcome
    (fresh : ∀ proc, memory = some proc → proc ∉ before ++ [last]) :
    Outcome table before last (.fork current memory stack) := by
  cases memory with
  | none => exact .unchanged (fun forks => forks.1 rfl) fun _ => rfl
  | some child =>
    let copied := table.copy child current
    let prepared := { copied with
      pid := update copied.pid child table.nextPid
      nextPid := table.nextPid + 1
      next := update copied.next child none }
    have next : prepared.next = update table.next child none := update_idem ..
    have pid : prepared.pid = update table.pid child table.nextPid := update_idem ..
    cases stack with
    | false =>
      refine .lost (fun forks => Bool.false_ne_true forks.2) child prepared rfl
        ⟨rfl, Nat.le_succ _, rfl, ?_, ?_, ?_, ?_, ?_⟩ fun _ => rfl
      · exact fun other apart => by rw [next, update_of_ne apart]
      · exact fun other apart => update_of_ne apart _ _
      · exact fun other apart => by rw [pid, update_of_ne apart]
      · exact fun other apart => update_of_ne apart _ _
      · exact fun other apart => update_of_ne apart _ _
    | true =>
      refine .forked ⟨Option.some_ne_none child, rfl⟩ current child
        { prepared with next := update prepared.next last (some child) } rfl
        ⟨rfl, rfl, rfl, by rw [next], ?_, pid, ?_, ?_⟩ (update_self ..) (update_self ..)
        fun fuel => ?_
      · exact fun other apart => update_of_ne apart _ _
      · exact fun other apart => update_of_ne apart _ _
      · exact fun other apart => update_of_ne apart _ _
      · have found : prepared.processList.bind (lastFrom prepared fuel) = _ :=
          chained.find_last (fresh child rfl) next rfl
        simp only [Processes.apply, processFork, if_true]
        rw [found]
        split <;> rfl

theorem Chained.outcome
    (fresh : ∀ proc, event.memory = some proc → proc ∉ table.allocated) : Outcome table before last event := by
  have outside : ∀ proc, event.memory = some proc → proc ∉ before ++ [last] :=
    fun proc given member => fresh proc given (chained.allocated proc member)
  cases event with
  | create | createKthread => exact chained.create_outcome id rfl outside fun _ => rfl
  | fork current memory stack => exact chained.fork_outcome outside

end

structure Reached (trace : List (CreationEvent Proc)) (table : Processes Proc) (procs : List Proc) : Prop where
  chained : Chained table procs
  doubly : DoublyLinked table procs ↔ ∀ event ∈ trace, ¬event.Forks
  held : HeldApart table procs ↔ ∀ event ∈ trace, ¬event.Forks

omit [DecidableEq Proc] in
/-- A call other than a successful `process_fork` keeps what held of the links. -/
theorem Reached.plain (reached : Reached trace table procs) (plain : ¬event.Forks) (chained : Chained after later)
    (doubly : DoublyLinked after later ↔ DoublyLinked table procs)
    (held : HeldApart after later ↔ HeldApart table procs) : Reached (trace ++ [event]) after later := by
  have same : (∀ other ∈ trace ++ [event], ¬other.Forks) ↔ ∀ other ∈ trace, ¬other.Forks := by
    rw [forall_mem_append, forall_mem_singleton, and_iff_left plain]
  refine ⟨chained, ?_, ?_⟩
  · rw [doubly, reached.doubly, same]
  · rw [held, reached.held, same]

theorem Reached.step (reached : Reached trace table procs) (step : CreationStep table event after) :
    ∃ later, Reached (trace ++ [event]) after later := by
  have chained := reached.chained
  obtain ⟨before, last, rfl, -⟩ := chained.last
  obtain ⟨fuel, applied⟩ := step.applied
  have outside : ∀ proc, event.memory = some proc → proc ∉ before ++ [last] :=
    fun proc given member => step.fresh proc given (chained.allocated proc member)
  cases chained.outcome step.fresh with
  | unchanged plain same =>
    cases (same fuel).symm.trans applied
    exact ⟨before ++ [last], reached.plain plain chained Iff.rfl Iff.rfl⟩
  | lost plain proc written memory effect same =>
    cases (same fuel).symm.trans applied
    have apart := outside proc memory
    exact ⟨before ++ [last], reached.plain plain (chained.lost effect apart)
      (doublyLinked_lost chained effect apart) (heldApart_lost effect apart)⟩
  | created plain proc written memory extended prev held same =>
    rw [same fuel, Option.ite_none_right_eq_some] at applied
    cases applied.2
    have apart := outside proc memory
    refine ⟨before ++ [last] ++ [proc], reached.plain plain (chained.extended extended apart) ?_ ?_⟩
    · rw [doublyLinked_extended chained extended apart, and_iff_left prev]
    · rw [heldApart_extended extended apart, and_iff_left held]
  | forked forks current child written memory extended prev held same =>
    rw [same fuel, Option.ite_none_right_eq_some] at applied
    cases applied.2
    have apart : child ∉ before ++ [last] := outside child (by rw [memory]; rfl)
    have member : current ∈ before ++ [last] := by
      obtain ⟨procs, linked, member⟩ := step.current current _ _ memory
      rwa [linked.unique chained.linked] at member
    have broken : ¬∀ other ∈ trace ++ [event], ¬other.Forks := fun none => none event (by simp) forks
    refine ⟨before ++ [last] ++ [child], chained.extended extended apart, ?_, ?_⟩
    · rw [doublyLinked_extended chained extended apart, prev]
      refine iff_of_false (fun both => ?_) broken
      exact both.1.prev_ne_last chained member both.2
    · rw [heldApart_extended extended apart, held, heldApart_iff]
      refine iff_of_false (fun both => ?_) broken
      -- The copied head leads to the list of the parent.
      have parent := (both.1 current member).1.symm.trans both.2.1
      exact apart (Option.some.inj parent ▸ member)

theorem Reached.initial (memory : Processes Proc) :
    Reached [] (processInit memory kernel) [kernel] := by
  refine ⟨⟨⟨rfl, update_self ..⟩, by simp, ?_, ?_, nodup_singleton _⟩, ?_, ?_⟩
  · simp [processInit, Processes.clear]
  · simp [processInit, Processes.clear]
  · refine iff_of_true ⟨fun proc member successor next => ?_, fun head first => ?_⟩ nofun
    · rw [mem_singleton.mp member] at next
      simp [processInit, Processes.clear] at next
    · cases first
      exact update_self ..
  · refine iff_of_true (heldApart_iff.mpr fun proc member => ?_) nofun
    rw [mem_singleton.mp member]
    exact ⟨update_self .., update_self ..⟩

/-- The pids are distinct.  The back pointers and the lists of held locks are right exactly
if no `process_fork` has succeeded. -/
theorem process_list_run {memory : Processes Proc} {kernel : Proc} {trace : List (CreationEvent Proc)}
    (run : Run CreationStep (processInit memory kernel) trace table) :
    ∃ procs, Linked table.next table.processList procs none ∧ (procs.map table.pid).Nodup ∧
      (DoublyLinked table procs ↔ ∀ event ∈ trace, ¬event.Forks) ∧
      (HeldApart table procs ↔ ∀ event ∈ trace, ¬event.Forks) ∧
      ∀ event : CreationEvent Proc, (∀ proc, event.memory = some proc → proc ∉ table.allocated) →
        ∃ fuel after, table.apply fuel event = some after := by
  have reached : ∃ procs, Reached trace table procs := by
    induction run with
    | nil => exact ⟨_, .initial memory⟩
    | snoc earlier last ih =>
      obtain ⟨procs, reached⟩ := ih
      exact reached.step last
  obtain ⟨procs, reached⟩ := reached
  refine ⟨procs, reached.chained.linked, reached.chained.distinct, reached.doubly, reached.held, ?_⟩
  intro event fresh
  have chained := reached.chained
  obtain ⟨before, last, rfl, -⟩ := chained.last
  cases chained.outcome fresh with
  | unchanged plain same => exact ⟨0, table, same 0⟩
  | lost plain proc after memory effect same => exact ⟨0, after, same 0⟩
  | created plain proc after memory extended prev held same =>
    exact ⟨before.length + 1, after, (same _).trans (if_pos (Nat.lt_succ_self _))⟩
  | forked forks current child after memory extended prev held same =>
    exact ⟨before.length + 1, after, (same _).trans (if_pos (Nat.lt_succ_self _))⟩

def blank : Processes Nat where
  next _ := none
  prev _ := none
  pid _ := 0
  heldLocks := { next := fun _ => none, prev := fun _ => none }
  processList := none
  nextPid := 0
  allocated := ∅

def twoThreads : List (CreationEvent Nat) := [.create (some 1) true, .createKthread (some 2) true]

def Processes.applyAll (table : Processes Nat) (trace : List (CreationEvent Nat)) : Processes Nat :=
  trace.foldl (fun table event => (table.apply 4 event).getD table) table

theorem process_list_run_threads :
    Run CreationStep (processInit blank 0) twoThreads ((processInit blank 0).applyAll twoThreads) ∧
      ∃ procs, DoublyLinked ((processInit blank 0).applyAll twoThreads) procs ∧
        HeldApart ((processInit blank 0).applyAll twoThreads) procs := by
  have run : Run CreationStep (processInit blank 0) twoThreads ((processInit blank 0).applyAll twoThreads) := by
    apply Run.of_performs
    refine ⟨⟨?_, nofun, 4, rfl⟩, ⟨?_, nofun, 4, rfl⟩, trivial⟩ <;>
      · intro proc given
        cases given
        decide
  obtain ⟨procs, -, -, doubly, held, -⟩ := process_list_run run
  have plain : ∀ event ∈ twoThreads, ¬event.Forks := by simp [twoThreads, CreationEvent.Forks]
  exact ⟨run, procs, doubly.mpr plain, held.mpr plain⟩

/-- The child of the first process is its successor without pointing back, and its list
of held locks leads to that of its parent. -/
theorem fork_copies_links : Run CreationStep (processInit blank 0) [.fork 0 (some 1) true]
        ((processInit blank 0).applyAll [.fork 0 (some 1) true]) ∧
      ((processInit blank 0).applyAll [.fork 0 (some 1) true]).next 0 = some 1 ∧
      ((processInit blank 0).applyAll [.fork 0 (some 1) true]).prev 1 = none ∧
      ((processInit blank 0).applyAll [.fork 0 (some 1) true]).heldLocks.next 1 = some 0 := by
  refine ⟨?_, rfl, rfl, rfl⟩
  apply Run.of_performs
  refine ⟨⟨?_, ?_, 4, rfl⟩, trivial⟩
  · intro proc given
    cases given
    decide
  · intro current memory stack same
    cases same
    exact ⟨[0], ⟨rfl, rfl⟩, mem_cons_self⟩

end Rucix.Process.Creation
