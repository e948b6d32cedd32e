import Rucix.Data.Laps
import Rucix.Data.Run

namespace Rucix.Drivers.Xhci

open Rucix.Data Function List Laps

/-! The command ring of `kernel/drivers/usb/xhci.c`: 255 cells for commands and a
link back to the first one.
-/

structure Trb where
  param : BitVec 64
  status : BitVec 32
  control : BitVec 32
deriving DecidableEq

namespace Trb

/-- `TRB_C` -/
def cycle (trb : Trb) : Bool := trb.control.getLsbD 0

/-- `TRB_TC` -/
def toggle (trb : Trb) : Bool := trb.control.getLsbD 1

def type (trb : Trb) : BitVec 32 := (trb.control >>> 10) &&& 0x3F#32

def setCycle (trb : Trb) (cycle : Bool) : Trb :=
  { trb with control := trb.control ||| if cycle then 1#32 else 0#32 }

/-- All but the cycle bit. -/
def body (trb : Trb) : Trb := { trb with control := trb.control >>> 1 }

/-- A link that the controller follows to the start of the ring. -/
def IsLink (trb : Trb) : Prop := trb.type = 6#32 ∧ trb.toggle = true

instance (trb : Trb) : Decidable trb.IsLink := inferInstanceAs (Decidable (_ ∧ _))

end Trb

structure Command where
  param1 : BitVec 32
  param2 : BitVec 32
  status : BitVec 32
  type : BitVec 32
deriving DecidableEq

/-- What is written for a command, besides the cycle bit. -/
def Command.trb (command : Command) : Trb where
  param := command.param1.setWidth 64 ||| command.param2.setWidth 64 <<< 32
  status := command.status
  control := command.type <<< 10

/-- `4096 / sizeof(struct xhci_trb) - 1` -/
def ringSize : Nat := 255

structure Host where
  cmdRing : Nat → Trb
  cmdRingPhys : BitVec 64
  cmdRingEnqueueIdx : Nat
  cmdRingCycle : Bool

def xhciInitMemory (phys : BitVec 64) : Host where
  cmdRing := fun _ => { param := 0, status := 0, control := 0 }
  cmdRingPhys := phys
  cmdRingEnqueueIdx := 0
  cmdRingCycle := true

/-- `TRB_TYPE(TRB_LINK) | TRB_TC`, to the start of the ring. -/
def linkTrb (phys : BitVec 64) : Trb where
  param := phys
  status := 0
  control := 6#32 <<< 10 ||| 2#32

def xhciSendCommand (host : Host) (command : Command) : Nat × Host :=
  let idx := host.cmdRingEnqueueIdx
  let ring := update host.cmdRing idx (command.trb.setCycle host.cmdRingCycle)
  if ringSize ≤ idx + 1 then
    (idx, { host with
      cmdRing := update ring (idx + 1) ((linkTrb host.cmdRingPhys).setCycle host.cmdRingCycle)
      cmdRingCycle := !host.cmdRingCycle
      cmdRingEnqueueIdx := 0 })
  else (idx, { host with cmdRing := ring, cmdRingEnqueueIdx := idx + 1 })

structure Consumer where
  index : Nat
  cycle : Bool
deriving DecidableEq

def Consumer.start : Consumer := { index := 0, cycle := true }

/-- The command that is taken, if any; `none` when the cell is not for this lap. -/
def Consumer.advance (consumer : Consumer) (ring : Nat → Trb) : Option (Option Trb × Consumer) :=
  let trb := ring consumer.index
  if trb.cycle ≠ consumer.cycle then none
  else if trb.IsLink then some (none, { index := 0, cycle := !consumer.cycle })
  else some (some trb, { consumer with index := consumer.index + 1 })

structure System where
  host : Host
  consumer : Consumer
  sent : List Command
  consumed : List Trb

def System.initial (phys : BitVec 64) : System where
  host := xhciInitMemory phys
  consumer := .start
  sent := []
  consumed := []

inductive RingEvent where
  | send (command : Command) (idx : Nat)
  | consume
deriving DecidableEq

def System.send (system : System) (command : Command) : System :=
  { system with host := (xhciSendCommand system.host command).2, sent := system.sent ++ [command] }

/-- Fewer than 255 commands are outstanding when one is sent. -/
def RingStep (before : System) : RingEvent → System → Prop
  | .send command idx, after =>
    before.sent.length < before.consumed.length + ringSize ∧
      idx = (xhciSendCommand before.host command).1 ∧ after = before.send command
  | .consume, after => ∃ taken consumer,
      before.consumer.advance before.host.cmdRing = some (taken, consumer) ∧
        after = { before with consumer, consumed := before.consumed ++ taken.toList }

namespace Trb

variable {trb : Trb}

theorem cycle_setCycle (clear : trb.cycle = false) (cycle : Bool) : (trb.setCycle cycle).cycle = cycle := by
  cases cycle with
  | false => simpa [Trb.cycle, setCycle] using clear
  | true => simp [Trb.cycle, setCycle]

theorem body_setCycle (cycle : Bool) : (trb.setCycle cycle).body = trb.body := by
  cases cycle <;> simp [body, setCycle, BitVec.ushiftRight_or_distrib]

/-- The toggle bit is not the cycle bit. -/
theorem toggle_eq_body : trb.toggle = trb.body.control.getLsbD 0 := by
  simp [toggle, body]

end Trb

theorem Command.trb_cycle (command : Command) : command.trb.cycle = false := by
  simp [Trb.cycle, Command.trb]

theorem Command.trb_toggle (command : Command) : command.trb.toggle = false := by
  simp [Trb.toggle, Command.trb]

theorem linkTrb_cycle : (linkTrb phys).cycle = false := by
  simp [Trb.cycle, linkTrb]

theorem linkTrb_isLink : ((linkTrb phys).setCycle cycle).IsLink := by
  cases cycle <;> simp [Trb.IsLink, Trb.type, Trb.toggle, Trb.setCycle, linkTrb]

/-- A cell with a command is not a link. -/
theorem not_isLink {trb : Trb} {command : Command} (same : trb.body = command.trb.body) : ¬trb.IsLink := by
  intro link
  have clear := command.trb_toggle
  rw [Trb.toggle_eq_body, ← same, ← Trb.toggle_eq_body, link.2] at clear
  cases clear

def Host.cells (host : Host) (index : Nat) : Bool × Trb :=
  ((host.cmdRing index).cycle, (host.cmdRing index).body)

structure Host.Sent (host : Host) (sent : List Command) : Prop where
  cells : Holds ringSize host.cells (sent.map fun command => command.trb.body)
  idx : host.cmdRingEnqueueIdx = sent.length % ringSize
  cycle : host.cmdRingCycle = mark ringSize sent.length
  linkCycle : (host.cmdRing ringSize).cycle = !mark ringSize sent.length
  link : ringSize ≤ sent.length → (host.cmdRing ringSize).IsLink

/-- Where the consumer is after `count` commands: at the next cell, or at the link in
front of it. -/
def Consumer.Reached (consumer : Consumer) (count : Nat) : Prop :=
  consumer.index = count % ringSize ∧ consumer.cycle = mark ringSize count ∨
    consumer.index = ringSize ∧ ringSize ≤ count ∧ count % ringSize = 0 ∧
      consumer.cycle = !mark ringSize count

variable {host : Host} {sent : List Command} {consumer next : Consumer} {count : Nat}

theorem mark_succ (inside : count % ringSize + 1 < ringSize) :
    mark ringSize (count + 1) = mark ringSize count := by
  have same : (count + 1) / ringSize = count / ringSize := by
    unfold ringSize at *
    omega
  rw [mark, mark, same]

theorem mark_wrap (last : count % ringSize + 1 = ringSize) :
    mark ringSize (count + 1) = !mark ringSize count := by
  have next : (count + 1) / ringSize = (count + ringSize) / ringSize := by
    unfold ringSize at *
    omega
  rw [← mark_next_lap count (by decide), mark, mark, next]

theorem cells_update : ({ host with cmdRing := update host.cmdRing index trb } : Host).cells =
      update host.cells index (trb.cycle, trb.body) := by
  funext other
  by_cases here : other = index
  · subst here
    simp [Host.cells]
  · simp [Host.cells, here]

theorem Host.Sent.written (reached : host.Sent sent) (command : Command) : Holds ringSize
      ({ host with
        cmdRing := update host.cmdRing host.cmdRingEnqueueIdx
          (command.trb.setCycle host.cmdRingCycle) } : Host).cells
      ((sent ++ [command]).map fun command => command.trb.body) := by
  have pushed := reached.cells.push command.trb.body
  rw [cells_update, Trb.cycle_setCycle command.trb_cycle, Trb.body_setCycle, reached.idx, reached.cycle,
    map_append]
  rwa [length_map] at pushed

theorem Host.Sent.send (reached : host.Sent sent) :
    (xhciSendCommand host command).2.Sent (sent ++ [command]) ∧
      ((xhciSendCommand host command).2.cmdRing (xhciSendCommand host command).1).body =
        command.trb.body := by
  have written := reached.written command
  have idx := reached.idx
  have below : sent.length % ringSize < ringSize := Nat.mod_lt _ (by decide)
  have length : (sent ++ [command]).length = sent.length + 1 := by simp
  simp only [xhciSendCommand]
  by_cases wraps : ringSize ≤ host.cmdRingEnqueueIdx + 1
  · have last : sent.length % ringSize + 1 = ringSize := by omega
    have place : host.cmdRingEnqueueIdx + 1 = ringSize := by omega
    have start : (sent.length + 1) % ringSize = 0 := by
      unfold ringSize at *
      omega
    have mark := mark_wrap last
    have linked : ∀ (ring : Nat → Trb) (link : Trb),
        update ring (host.cmdRingEnqueueIdx + 1) link ringSize = link := by
      intro ring link
      rw [place, update_self]
    rw [if_pos wraps]
    refine ⟨⟨?_, ?_, ?_, ?_, fun _ => ?_⟩, ?_⟩
    · refine written.congr (by decide) fun index inside => ?_
      have other : index ≠ host.cmdRingEnqueueIdx + 1 := by omega
      simp [Host.cells, other]
    · rw [length, start]
    · rw [length, mark, reached.cycle]
    · rw [length, mark, Bool.not_not, ← reached.cycle]
      simp only [linked]
      exact Trb.cycle_setCycle (linkTrb_cycle) _
    · simp only [linked]
      exact linkTrb_isLink
    · have other : host.cmdRingEnqueueIdx ≠ host.cmdRingEnqueueIdx + 1 := by omega
      simp only [update_of_ne other, update_self]
      exact Trb.body_setCycle _
  · have inside : sent.length % ringSize + 1 < ringSize := by omega
    have other : ringSize ≠ host.cmdRingEnqueueIdx := by omega
    have next : (sent.length + 1) % ringSize = sent.length % ringSize + 1 := by
      unfold ringSize at *
      omega
    have mark := mark_succ inside
    rw [if_neg wraps]
    refine ⟨⟨written, ?_, ?_, ?_, fun full => ?_⟩, ?_⟩
    · rw [length, next, ← idx]
    · rw [length, mark, reached.cycle]
    · rw [length, mark, ← reached.linkCycle]
      simp only [update_of_ne other]
    · simp only [update_of_ne other]
      refine reached.link ?_
      unfold ringSize at *
      omega
    · simp only [update_self]
      exact Trb.body_setCycle _

/-- The link is for the lap before that of the consumer only when it is not yet
rewritten. -/
theorem mark_eq_iff (start : count % ringSize = 0) (sentMore : count ≤ sent.length)
    (window : sent.length ≤ count + ringSize) :
    mark ringSize sent.length = mark ringSize count ↔ sent.length < count + ringSize := by
  by_cases full : sent.length = count + ringSize
  · rw [full, mark_next_lap _ (by decide)]
    simp
  · have same : sent.length / ringSize = count / ringSize := by
      unfold ringSize at *
      omega
    rw [mark, same]
    exact iff_of_true rfl (by omega)

/-- What the consumer can do: take the next command, follow the link, or nothing. -/
theorem Consumer.Reached.advance (reached : consumer.Reached count) (producer : host.Sent sent)
    (sentMore : count ≤ sent.length) (window : sent.length ≤ count + ringSize) :
    match consumer.advance host.cmdRing with
    | none => count = sent.length ∨ consumer.index = ringSize ∧ sent.length = count + ringSize
    | some (none, next) => consumer.index = ringSize ∧ next.Reached count
    | some (some trb, next) =>
      (∃ command, sent[count]? = some command ∧ trb.body = command.trb.body) ∧ next.Reached (count + 1) := by
  rcases reached with ⟨index, cycle⟩ | ⟨index, lap, start, cycle⟩
  · by_cases outstanding : count < sent.length
    · have found := producer.cells.stored count sent[count].trb.body (by simp [outstanding])
        (by rwa [length_map])
      rw [← index] at found
      have marked : (host.cmdRing consumer.index).cycle = consumer.cycle := by
        rw [cycle]
        exact congrArg Prod.fst found
      have same : (host.cmdRing consumer.index).body = sent[count].trb.body := congrArg Prod.snd found
      simp only [Consumer.advance, marked, ne_eq, if_neg (not_isLink same)]
      refine ⟨⟨sent[count], getElem?_eq_getElem outstanding, same⟩, ?_⟩
      have below : count % ringSize < ringSize := Nat.mod_lt _ (by decide)
      by_cases last : count % ringSize + 1 = ringSize
      · refine .inr ⟨by rw [index, last], ?_, ?_, ?_⟩
        · unfold ringSize at *
          omega
        · unfold ringSize at *
          omega
        · rw [mark_wrap last, Bool.not_not, cycle]
      · have moved : count % ringSize + 1 = (count + 1) % ringSize := by
          unfold ringSize at *
          omega
        refine .inl ⟨?_, ?_⟩
        · rw [index, moved]
        · rw [mark_succ (by omega), cycle]
    · have all : count = sent.length := by omega
      have unmarked := producer.cells.next_unmarked (by decide)
      rw [length_map, ← all, ← index, ← cycle] at unmarked
      have stays : (host.cmdRing consumer.index).cycle ≠ consumer.cycle := unmarked
      simp only [Consumer.advance, ne_eq, stays]
      exact .inl all
  · have linkCycle := producer.linkCycle
    have same := mark_eq_iff start sentMore window
    by_cases full : sent.length = count + ringSize
    · have stays : (host.cmdRing consumer.index).cycle ≠ consumer.cycle := by
        rw [index, linkCycle, cycle]
        intro equal
        have unequal := same.mp (Bool.not_inj equal)
        omega
      simp only [Consumer.advance, ne_eq, stays]
      exact .inr ⟨index, full⟩
    · have marked : (host.cmdRing consumer.index).cycle = consumer.cycle := by
        rw [index, linkCycle, cycle, same.mpr (by omega)]
      have link : (host.cmdRing consumer.index).IsLink := by
        rw [index]
        exact producer.link (Nat.le_trans lap sentMore)
      simp only [Consumer.advance, marked, ne_eq, if_pos link]
      refine ⟨index, .inl ⟨start.symm, ?_⟩⟩
      rw [cycle, Bool.not_not]

structure System.Ordered (system : System) : Prop where
  producer : system.host.Sent system.sent
  reached : system.consumer.Reached system.consumed.length
  sentMore : system.consumed.length ≤ system.sent.length
  window : system.sent.length ≤ system.consumed.length + ringSize
  taken : system.consumed.map Trb.body =
    (system.sent.take system.consumed.length).map fun command => command.trb.body

theorem System.Ordered.initial : (System.initial phys).Ordered where
  producer := by
    have first : true = mark ringSize 0 := by simp [mark]
    refine ⟨⟨fun index value found _ => ?_, fun index _ _ => ?_⟩, rfl, first, ?_, by simp [System.initial, ringSize]⟩
    · cases found
    · simp [Host.cells, System.initial, xhciInitMemory, Trb.cycle]
    · simp [System.initial, xhciInitMemory, Trb.cycle, mark]
  reached := .inl ⟨rfl, by simp [System.initial, Consumer.start, mark]⟩
  sentMore := Nat.le_refl _
  window := Nat.zero_le _
  taken := rfl

theorem System.Ordered.step {after : System} (ordered : system.Ordered) (step : RingStep system event after) :
    after.Ordered := by
  cases event with
  | send command idx =>
    obtain ⟨room, -, rfl⟩ := step
    refine ⟨(ordered.producer.send).1, ordered.reached, ?_, ?_, ?_⟩
    · simp only [System.send, length_append]
      exact Nat.le_succ_of_le ordered.sentMore
    · simp only [System.send, length_append]
      exact Nat.succ_le_of_lt room
    · simp only [System.send]
      rw [take_append_of_le_length ordered.sentMore]
      exact ordered.taken
  | consume =>
    obtain ⟨taken, consumer, advanced, rfl⟩ := step
    have moved := ordered.reached.advance ordered.producer ordered.sentMore ordered.window
    rw [advanced] at moved
    cases taken with
    | none =>
      simp only [Option.toList_none, append_nil]
      exact ⟨ordered.producer, moved.2, ordered.sentMore, ordered.window, ordered.taken⟩
    | some trb =>
      obtain ⟨⟨command, found, same⟩, reached⟩ := moved
      have more := (List.getElem?_eq_some_iff.mp found).1
      have window := ordered.window
      refine ⟨ordered.producer, ?_, ?_, ?_, ?_⟩
      · simpa using reached
      · simp only [length_append]
        exact Nat.succ_le_of_lt more
      · simp only [length_append]
        omega
      · simp only [map_append, ordered.taken, length_append, length_singleton,
          take_add_one, found, Option.toList_some, map_cons, map_nil, same]

theorem System.Ordered.of_run {system : System} (run : Run RingStep (System.initial phys) trace system) :
    system.Ordered := by
  refine run.invariant .initial ?_
  intro before event after ordered step
  exact ordered.step step

/-- The consumed commands are the first ones that were sent, and a command is placed at
the index that is returned.  The consumer waits only if there is no command for it, or
at the link while all cells behind it are in use. -/
theorem xhci_command_ring_run {phys : BitVec 64} {trace : List RingEvent} {system : System}
    (run : Run RingStep (System.initial phys) trace system) :
    system.consumed.map Trb.body <+: system.sent.map (fun command => command.trb.body) ∧
    (∀ command, ((xhciSendCommand system.host command).2.cmdRing
      (xhciSendCommand system.host command).1).body = command.trb.body) ∧
    (system.consumer.advance system.host.cmdRing = none →
      system.consumed.length = system.sent.length ∨
        system.consumer.index = ringSize ∧ system.sent.length = system.consumed.length + ringSize) := by
  have ordered := System.Ordered.of_run run
  refine ⟨?_, fun command => (ordered.producer.send).2, fun waits => ?_⟩
  · rw [ordered.taken]
    exact ( take_prefix _ _).map _
  · have moved := ordered.reached.advance ordered.producer ordered.sentMore ordered.window
    rwa [waits] at moved

/-- A consumer in front of a cell takes the command that is outstanding. -/
theorem System.Ordered.takes {system : System} (ordered : system.Ordered)
    (more : system.consumed.length < system.sent.length) (cell : system.consumer.index < ringSize) :
    ∃ after, RingStep system .consume after ∧ after.sent = system.sent ∧
      after.consumed.length = system.consumed.length + 1 := by
  have moved := ordered.reached.advance ordered.producer ordered.sentMore ordered.window
  cases advanced : system.consumer.advance system.host.cmdRing with
  | none =>
    rw [advanced] at moved
    omega
  | some result =>
    obtain ⟨taken, next⟩ := result
    rw [advanced] at moved
    cases taken with
    | none => exact absurd moved.1 (Nat.ne_of_lt cell)
    | some trb => exact ⟨_, ⟨_, _, advanced, rfl⟩, rfl, length_append⟩

/-- At the link it first goes to the start of the ring. -/
theorem System.Ordered.takes_after_link {system : System} (ordered : system.Ordered)
    (more : system.consumed.length < system.sent.length)
    (room : system.sent.length < system.consumed.length + ringSize) (run : Run RingStep start trace system) :
    ∃ trace after, Run RingStep start trace after ∧ after.sent = system.sent ∧
      after.consumed.length = system.consumed.length + 1 := by
  have below : system.consumed.length % ringSize < ringSize := Nat.mod_lt _ (by decide)
  rcases ordered.reached with ⟨index, -⟩ | ⟨index, lap, begins, cycle⟩
  · obtain ⟨after, step, result⟩ := ordered.takes more (by omega)
    exact ⟨_, after, run.snoc step, result⟩
  · have marked := ordered.producer.linkCycle
    rw [(mark_eq_iff begins ordered.sentMore ordered.window).mpr room, ← cycle, ← index] at marked
    have link := ordered.producer.link (Nat.le_trans lap ordered.sentMore)
    rw [← index] at link
    have follows : RingStep system .consume { system with consumer := ⟨0, !system.consumer.cycle⟩ } := by
      refine ⟨none, ⟨0, !system.consumer.cycle⟩, ?_, ?_⟩
      · rw [Consumer.advance, if_neg (not_not.mpr marked), if_pos link]
      · simp
    obtain ⟨after, step, result⟩ := (ordered.step follows).takes more (Nat.succ_pos 254)
    exact ⟨_, after, (run.snoc follows).snoc step, result⟩

def enableSlot : Command := { param1 := 0, param2 := 0, status := 0, type := 9 }

theorem slots_taken (count : Nat) : ∃ trace system, Run RingStep (System.initial 0) trace system ∧
    system.sent = replicate count enableSlot ∧ system.consumed.length = count := by
  induction count with
  | zero => exact ⟨[], _, .nil, rfl, rfl⟩
  | succ count ih =>
    obtain ⟨trace, system, run, sent, consumed⟩ := ih
    have length : (system.send enableSlot).sent.length = count + 1 := by simp [System.send, sent]
    have sends : RingStep system (.send enableSlot (xhciSendCommand system.host enableSlot).1)
        (system.send enableSlot) := ⟨by simp [sent, consumed, ringSize], rfl, rfl⟩
    have taken : (system.send enableSlot).consumed.length = count := consumed
    have run := run.snoc sends
    obtain ⟨trace, after, run, same, more⟩ :=
      (System.Ordered.of_run run).takes_after_link (by omega) (by unfold ringSize; omega) run
    refine ⟨trace, after, run, ?_, by omega⟩
    rw [same, replicate_succ', ← sent]
    rfl

/-- The consumer passes the link after 255 commands. -/
theorem xhci_command_ring_run_second_lap : ∃ trace system, Run RingStep (System.initial 0) trace system ∧
    system.consumed.map Trb.body = replicate 300 enableSlot.trb.body := by
  obtain ⟨trace, system, run, sent, consumed⟩ := slots_taken 300
  have same := (xhci_command_ring_run run).1.eq_of_length
    (by rw [length_map, length_map, sent, consumed, length_replicate])
  refine ⟨trace, system, run, same.trans ?_⟩
  rw [sent, map_replicate]

end Rucix.Drivers.Xhci
