import Rucix.Data.Ring
import Rucix.Data.Run
import Rucix.Data.Word

namespace Rucix.Net.E1000

open Rucix.Data Function List

/-! The transmit ring of `kernel/net/drivers/e1000.c`.  Buffers are named by their
addresses.
-/

structure TxDesc where
  addr : Nat
  length : Nat
  cmd : Nat
  status : Nat
deriving DecidableEq

def numTxDesc : Nat := 8

/-- `tdt` is the register `E1000_TDT`. -/
structure Adapter where
  txDescs : Nat → TxDesc
  txSkbs : Nat → Option Nat
  txCur : Nat
  txClean : Nat
  tdt : Nat

structure Outgoing where
  skb : Nat
  data : Nat
  len : Nat
deriving DecidableEq

def setupTx : Adapter where
  txDescs := fun _ => { addr := 0, length := 0, cmd := 0, status := 0 }
  txSkbs := fun _ => none
  txCur := 0
  txClean := 0
  tdt := 0

/-- The loop of `e1000_clean_tx` with the buffers it frees. -/
def cleanFrom : (fuel : Nat) → Adapter → (index : Nat) → Option (List Nat × Adapter)
  | 0, _, _ => none
  | fuel + 1, adapter, index =>
    if index = adapter.txCur then some ([], { adapter with txClean := index })
    else
      let desc := adapter.txDescs index
      if desc.status % 2 = 1 then
        let cleaned := { adapter with
          txSkbs := update adapter.txSkbs index none
          txDescs := update adapter.txDescs index { desc with status := 0 } }
        (cleanFrom fuel cleaned ((index + 1) % numTxDesc)).map fun (freed, after) =>
          ((adapter.txSkbs index).toList ++ freed, after)
      else some ([], { adapter with txClean := index })

/-- The loop stops at a descriptor that it has cleaned itself. -/
def e1000CleanTx (adapter : Adapter) : Option (List Nat × Adapter) :=
  cleanFrom (numTxDesc + 1) adapter adapter.txClean

/-- `E1000_CMD_EOP | E1000_CMD_IFCS | E1000_CMD_RS` -/
def txCmd : Nat := 1 ||| 2 ||| 8

/-- The descriptor, the buffer and the indices of an accepted frame.  `phys` is
`vmm_get_phys`. -/
def Adapter.submit (phys : Nat → Nat) (adapter : Adapter) (frame : Outgoing) : Adapter :=
  let next := (adapter.txCur + 1) % numTxDesc
  { adapter with
    txDescs := update adapter.txDescs adapter.txCur
      { addr := phys frame.data, length := wrap 16 frame.len, cmd := txCmd, status := 0 }
    txSkbs := update adapter.txSkbs adapter.txCur (some frame.skb)
    txCur := next
    tdt := next }

/-- The result, the buffers that were freed, and the adapter. -/
def e1000StartXmit (phys : Nat → Nat) (adapter : Adapter) (frame : Outgoing) :
    Option (Int × List Nat × Adapter) :=
  (e1000CleanTx adapter).map fun (freed, adapter) =>
    if (adapter.txCur + 1) % numTxDesc = adapter.txClean then (-1, freed, adapter)
    else (0, freed, adapter.submit phys frame)

structure Pending where
  skb : Nat
  addr : Nat
  length : Nat
  done : Bool
deriving DecidableEq

def Pending.desc (pending : Pending) : TxDesc where
  addr := pending.addr
  length := pending.length
  cmd := txCmd
  status := if pending.done then 1 else 0

def Pending.of (phys : Nat → Nat) (frame : Outgoing) : Pending where
  skb := frame.skb
  addr := phys frame.data
  length := wrap 16 frame.len
  done := false

/-- From `start` up to `tx_cur` the ring holds the frames of `queue`, and the other
slots are empty. -/
structure Window (adapter : Adapter) (start : Nat) (queue : List Pending) : Prop where
  start_lt : start < numTxDesc
  bounded : queue.length < numTxDesc
  cur : adapter.txCur = (start + queue.length) % numTxDesc
  descs : Ring.contents adapter.txDescs numTxDesc start queue.length = queue.map Pending.desc
  skbs : Ring.contents adapter.txSkbs numTxDesc start queue.length = queue.map fun pending => some pending.skb
  vacant : Ring.contents adapter.txSkbs numTxDesc adapter.txCur (numTxDesc - queue.length) =
    List.replicate (numTxDesc - queue.length) none

def Adapter.Represents (adapter : Adapter) (queue : List Pending) : Prop :=
  Window adapter adapter.txClean queue ∧ adapter.tdt = adapter.txCur

variable {adapter after : Adapter} {queue : List Pending}

namespace Window

variable (window : Window adapter start queue)
include window

theorem congr (descs : after.txDescs = adapter.txDescs) (skbs : after.txSkbs = adapter.txSkbs)
    (cur : after.txCur = adapter.txCur) : Window after start queue where
  start_lt := window.start_lt
  bounded := window.bounded
  cur := cur.trans window.cur
  descs := by rw [descs, window.descs]
  skbs := by rw [skbs, window.skbs]
  vacant := by rw [skbs, cur, window.vacant]

omit window in
theorem pop (window : Window adapter start (pending :: queue)) (desc : TxDesc) :
    Window { adapter with
      txSkbs := update adapter.txSkbs start none
      txDescs := update adapter.txDescs start desc } ((start + 1) % numTxDesc) queue := by
  have bounded := window.bounded
  rw [length_cons] at bounded
  have room : queue.length < numTxDesc := Nat.lt_of_succ_lt bounded
  have here : start % numTxDesc = start := Nat.mod_eq_of_lt window.start_lt
  have descs := window.descs
  have skbs := window.skbs
  have vacant := window.vacant
  have cur := window.cur
  rw [length_cons, Ring.contents_pop, map_cons] at descs skbs
  rw [length_cons] at vacant cur
  refine ⟨Nat.mod_lt _ (by decide), by omega, ?_, ?_, ?_, ?_⟩
  · dsimp only
    rw [cur, Nat.mod_add_mod]
    congr 1
    omega
  · exact (Ring.contents_update_before window.start_lt room).trans (List.cons.inj descs).2
  · exact (Ring.contents_update_before window.start_lt room).trans (List.cons.inj skbs).2
  · have more : numTxDesc - queue.length = numTxDesc - (queue.length + 1) + 1 := by omega
    have place : (adapter.txCur + (numTxDesc - (queue.length + 1))) % numTxDesc = start := by
      rw [cur, Nat.mod_add_mod, ← here]
      conv_rhs => rw [← Nat.add_mod_right]
      congr 1
      omega
    rw [more, replicate_succ', ← vacant]
    conv_lhs => rw [← place]
    exact Ring.contents_push (by omega)

theorem submit (room : queue.length + 1 < numTxDesc) :
    Window (adapter.submit phys frame) start (queue ++ [Pending.of phys frame]) := by
  have cur := window.cur
  have vacant := window.vacant
  have inside : adapter.txCur < numTxDesc := by
    rw [cur]
    exact Nat.mod_lt _ (by decide)
  refine ⟨window.start_lt, ?_, ?_, ?_, ?_, ?_⟩
  · rwa [length_append]
  · simp only [Adapter.submit, length_append, length_singleton]
    rw [cur, Nat.mod_add_mod, Nat.add_assoc]
  · rw [length_append, map_append, ← window.descs]
    simp only [Adapter.submit, cur]
    exact Ring.contents_push window.bounded
  · rw [length_append, map_append, ← window.skbs]
    simp only [Adapter.submit, cur]
    exact Ring.contents_push window.bounded
  · have more : numTxDesc - queue.length = numTxDesc - (queue.length + 1) + 1 := by omega
    rw [more, Ring.contents_pop] at vacant
    rw [length_append]
    have less : numTxDesc - (queue.length + 1) < numTxDesc := by omega
    exact (Ring.contents_update_before inside less).trans (List.cons.inj vacant).2

theorem desc_eq (inside : index < queue.length) :
    adapter.txDescs ((start + index) % numTxDesc) = queue[index].desc := by
  have found := Ring.contents_getElem? adapter.txDescs numTxDesc start inside
  rw [window.descs, getElem?_map, getElem?_eq_getElem inside] at found
  exact (Option.some.inj found).symm

theorem skb_eq (inside : index < queue.length) :
    adapter.txSkbs ((start + index) % numTxDesc) = some queue[index].skb := by
  have found := Ring.contents_getElem? adapter.txSkbs numTxDesc start inside
  rw [window.skbs, getElem?_map, getElem?_eq_getElem inside] at found
  exact (Option.some.inj found).symm

theorem vacant_eq (outside : queue.length ≤ index) (below : index < numTxDesc) :
    adapter.txSkbs ((start + index) % numTxDesc) = none := by
  have inside : index - queue.length < numTxDesc - queue.length := by omega
  have found := Ring.contents_getElem? adapter.txSkbs numTxDesc adapter.txCur inside
  rw [window.vacant, getElem?_replicate, if_pos inside, window.cur, Nat.mod_add_mod] at found
  have place : start + queue.length + (index - queue.length) = start + index := by omega
  rw [place] at found
  exact (Option.some.inj found).symm

theorem outstanding : (adapter.txCur + numTxDesc - start) % numTxDesc = queue.length := by
  have lower := window.start_lt
  have bounded := window.bounded
  rw [window.cur]
  unfold numTxDesc at *
  omega

end Window

theorem Pending.desc_done (pending : Pending) : pending.desc.status % 2 = 1 ↔ pending.done = true := by
  cases done : pending.done <;> simp [Pending.desc, done]

/-- The buffers of the frames in front that the device has transmitted are freed,
and the others stay. -/
theorem cleanFrom_eq (window : Window adapter start queue) (enough : queue.length < fuel) :
    ∃ after, cleanFrom fuel adapter start =
        some ((queue.takeWhile Pending.done).map Pending.skb, after) ∧
      Window after after.txClean (queue.dropWhile Pending.done) ∧
      after.txCur = adapter.txCur ∧ after.tdt = adapter.tdt ∧
      ∀ index, (∀ offset < (queue.takeWhile Pending.done).length, index ≠ (start + offset) % numTxDesc) →
        after.txDescs index = adapter.txDescs index ∧ after.txSkbs index = adapter.txSkbs index := by
  induction queue generalizing adapter start fuel with
  | nil =>
    obtain ⟨fuel, rfl⟩ : ∃ smaller, fuel = smaller + 1 := ⟨fuel - 1, by omega⟩
    have stop : start = adapter.txCur := by
      rw [window.cur, length_nil, Nat.add_zero, Nat.mod_eq_of_lt window.start_lt]
    refine ⟨{ adapter with txClean := start }, ?_, window.congr rfl rfl rfl, rfl, rfl,
      fun _ _ => ⟨rfl, rfl⟩⟩
    rw [cleanFrom, if_pos stop]
    rfl
  | cons pending rest ih =>
    obtain ⟨fuel, rfl⟩ : ∃ smaller, fuel = smaller + 1 := ⟨fuel - 1, by omega⟩
    have positive : 0 < (pending :: rest).length := Nat.succ_pos _
    have here : (start + 0) % numTxDesc = start := Nat.mod_eq_of_lt window.start_lt
    have desc := window.desc_eq positive
    have skb := window.skb_eq positive
    rw [here, getElem_cons_zero] at desc skb
    have further : start ≠ adapter.txCur := by
      have bounded := window.bounded
      rw [window.cur]
      unfold numTxDesc at *
      omega
    rw [cleanFrom, if_neg further]
    cases done : pending.done with
    | true =>
      have set : (adapter.txDescs start).status % 2 = 1 := by
        rw [desc]
        exact pending.desc_done.mpr done
      obtain ⟨after, cleaned, remaining, cur, tdt, kept⟩ :=
        ih (window.pop { adapter.txDescs start with status := 0 }) (Nat.lt_of_succ_lt_succ enough)
      refine ⟨after, ?_, ?_, cur, tdt, ?_⟩
      · simp only [if_pos set, cleaned, Option.map_some, skb, Option.toList_some,
          takeWhile_cons_of_pos done, map_cons, singleton_append]
      · rwa [dropWhile_cons_of_pos done]
      · intro index apart
        rw [takeWhile_cons_of_pos done] at apart
        have other : index ≠ start := by
          rw [← here]
          exact apart 0 (Nat.succ_pos _)
        have same := kept index fun offset below => by
          rw [Nat.mod_add_mod, Nat.add_assoc, Nat.add_comm 1 offset]
          exact apart (offset + 1) (Nat.succ_lt_succ below)
        simpa only [update_of_ne other] using same
    | false =>
      have unset : ¬(adapter.txDescs start).status % 2 = 1 := by
        rw [desc, pending.desc_done, done]
        exact Bool.false_ne_true
      have stays : ¬pending.done = true := by
        rw [done]
        exact Bool.false_ne_true
      refine ⟨{ adapter with txClean := start }, ?_, ?_, rfl, rfl, fun _ _ => ⟨rfl, rfl⟩⟩
      · rw [takeWhile_cons_of_neg stays]
        simp only [if_neg unset, map_nil]
      · rw [dropWhile_cons_of_neg stays]
        exact window.congr rfl rfl rfl

def Adapter.complete (adapter : Adapter) (index : Nat) : Adapter :=
  { adapter with
    txDescs := update adapter.txDescs index
      { adapter.txDescs index with status := (adapter.txDescs index).status ||| 1 } }

def Adapter.outstanding (adapter : Adapter) : Nat :=
  (adapter.txCur + numTxDesc - adapter.txClean) % numTxDesc

def Adapter.InFlight (adapter : Adapter) (index : Nat) : Prop :=
  ∃ offset < adapter.outstanding, index = (adapter.txClean + offset) % numTxDesc

/-- A call with its result and the buffers it frees, or a completion. -/
inductive TxEvent where
  | xmit (frame : Outgoing) (result : Int) (freed : List Nat)
  | complete (index : Nat)
deriving DecidableEq

def TxStep (phys : Nat → Nat) (before : Adapter) : TxEvent → Adapter → Prop
  | .xmit frame result freed, after => e1000StartXmit phys before frame = some (result, freed, after)
  | .complete index, after =>
    before.InFlight index ∧ (before.txDescs index).status % 2 = 0 ∧ after = before.complete index

def TxEvent.accepted : TxEvent → List Nat
  | .xmit frame result _ => if result = 0 then [frame.skb] else []
  | .complete _ => []

def TxEvent.freed : TxEvent → List Nat
  | .xmit _ _ freed => freed
  | .complete _ => []

def enqueue (phys : Nat → Nat) (queue : List Pending) (frame : Outgoing) : List Pending :=
  let rest := queue.dropWhile Pending.done
  if rest.length + 1 = numTxDesc then rest else rest ++ [Pending.of phys frame]

def verdict (queue : List Pending) : Int :=
  if (queue.dropWhile Pending.done).length + 1 = numTxDesc then -1 else 0

/-- One of the descriptors in front that are done. -/
def Adapter.Cleaned (adapter : Adapter) (queue : List Pending) (index : Nat) : Prop :=
  ∃ offset < (queue.takeWhile Pending.done).length, index = (adapter.txClean + offset) % numTxDesc

namespace Adapter.Represents

variable {phys : Nat → Nat} {index : Nat}

variable (represents : adapter.Represents queue)
include represents

theorem inFlight_iff :
    adapter.InFlight index ↔ ∃ offset < queue.length, index = (adapter.txClean + offset) % numTxDesc := by
  rw [Adapter.InFlight, Adapter.outstanding, represents.1.outstanding]

theorem slot_iff (inside : index < numTxDesc) : adapter.txSkbs index ≠ none ↔ adapter.InFlight index := by
  have window := represents.1
  rw [represents.inFlight_iff]
  constructor
  · intro used
    refine ⟨(index + numTxDesc - adapter.txClean) % numTxDesc, ?_, ?_⟩
    · by_contra outside
      have lower := window.start_lt
      have place : (adapter.txClean + (index + numTxDesc - adapter.txClean) % numTxDesc) % numTxDesc =
          index := by
        unfold numTxDesc at *
        omega
      have vacant := window.vacant_eq (Nat.le_of_not_lt outside) (Nat.mod_lt _ (by decide))
      rw [place] at vacant
      exact used vacant
    · have lower := window.start_lt
      unfold numTxDesc at *
      omega
  · rintro ⟨offset, below, rfl⟩
    rw [window.skb_eq below]
    exact Option.some_ne_none _

theorem startXmit (phys : Nat → Nat) (frame : Outgoing) :
    ∃ after, e1000StartXmit phys adapter frame =
        some (verdict queue, (queue.takeWhile Pending.done).map Pending.skb, after) ∧
      after.Represents (enqueue phys queue frame) ∧
      (verdict queue = -1 → after.txCur = adapter.txCur ∧ after.tdt = adapter.tdt) ∧
      ∀ index, index ≠ adapter.txCur ∨ verdict queue = -1 → ¬adapter.Cleaned queue index →
        after.txDescs index = adapter.txDescs index ∧ after.txSkbs index = adapter.txSkbs index := by
  have window := represents.1
  have bounded := window.bounded
  obtain ⟨cleaned, run, remaining, cur, tdt, kept⟩ :=
    cleanFrom_eq window (show queue.length < numTxDesc + 1 by omega)
  have full : (cleaned.txCur + 1) % numTxDesc = cleaned.txClean ↔
      (queue.dropWhile Pending.done).length + 1 = numTxDesc := by
    have lower := remaining.start_lt
    have less := remaining.bounded
    rw [remaining.cur]
    unfold numTxDesc at *
    omega
  simp only [e1000StartXmit, e1000CleanTx, run, Option.map_some, verdict, enqueue]
  by_cases isFull : (queue.dropWhile Pending.done).length + 1 = numTxDesc
  · rw [if_pos (full.mpr isFull), if_pos isFull, if_pos isFull]
    refine ⟨cleaned, rfl, ⟨remaining, ?_⟩, fun _ => ⟨cur, tdt⟩, fun index _ apart => kept index ?_⟩
    · rw [tdt, cur, represents.2]
    · exact fun offset below same => apart ⟨offset, below, same⟩
  · rw [if_neg (mt full.mp isFull), if_neg isFull, if_neg isFull]
    have room : (queue.dropWhile Pending.done).length + 1 < numTxDesc := by
      have less := remaining.bounded
      omega
    refine ⟨cleaned.submit phys frame, rfl, ⟨remaining.submit room, rfl⟩, nofun, ?_⟩
    intro index accepted apart
    have other : index ≠ cleaned.txCur := by
      rw [cur]
      exact accepted.resolve_right (by decide)
    have same := kept index fun offset below same => apart ⟨offset, below, same⟩
    simpa only [Adapter.submit, update_of_ne other] using same

theorem ne_txCur (inFlight : adapter.InFlight index) : index ≠ adapter.txCur := by
  obtain ⟨offset, below, rfl⟩ := represents.inFlight_iff.mp inFlight
  have bounded := represents.1.bounded
  rw [represents.1.cur]
  unfold numTxDesc at *
  omega

theorem cleaned_done (cleaned : adapter.Cleaned queue index) : (adapter.txDescs index).status % 2 = 1 := by
  obtain ⟨offset, below, rfl⟩ := cleaned
  have shorter := ( takeWhile_prefix Pending.done : _ <+: queue).length_le
  have inside : offset < queue.length := by omega
  rw [represents.1.desc_eq inside, Pending.desc_done,
    ← ( takeWhile_prefix Pending.done : _ <+: queue).getElem below]
  exact all_eq_true.mp all_takeWhile _ (getElem_mem below)

theorem complete (below : offset < queue.length)
    (unset : (adapter.txDescs ((adapter.txClean + offset) % numTxDesc)).status % 2 = 0) :
    (adapter.complete ((adapter.txClean + offset) % numTxDesc)).Represents
      (queue.set offset { queue[offset] with done := true }) := by
  have window := represents.1
  have desc := window.desc_eq below
  refine ⟨⟨window.start_lt, ?_, ?_, ?_, ?_, ?_⟩, represents.2⟩
  · rw [length_set]
    exact window.bounded
  · rw [length_set]
    exact window.cur
  · rw [length_set, map_set, ← window.descs]
    refine (Ring.contents_set below window.bounded.le).trans ?_
    rw [desc] at unset ⊢
    have pending : queue[offset].done = false := by
      cases done : queue[offset].done with
      | false => rfl
      | true => simp [Pending.desc, done] at unset
    simp [Pending.desc, pending]
  · rw [length_set, map_set]
    have place : offset < (queue.map fun pending => some pending.skb).length := by
      rwa [length_map]
    have same := set_getElem_self place
    rw [getElem_map] at same
    exact window.skbs.trans same.symm
  · rw [length_set]
    exact window.vacant

/-- The buffers that were in the queue, and a new one, are freed or still there. -/
theorem step (step : TxStep phys adapter event after) :
    ∃ later, after.Represents later ∧
      queue.map Pending.skb ++ event.accepted = event.freed ++ later.map Pending.skb := by
  cases event with
  | xmit frame result freed =>
    obtain ⟨next, returned, holds, -⟩ := represents.startXmit phys frame
    cases returned.symm.trans step
    refine ⟨_, holds, ?_⟩
    have parts : (queue.takeWhile Pending.done).map Pending.skb ++
        (queue.dropWhile Pending.done).map Pending.skb = queue.map Pending.skb := by
      rw [← map_append, takeWhile_append_dropWhile]
    by_cases isFull : (queue.dropWhile Pending.done).length + 1 = numTxDesc
    · have refused : verdict queue = -1 := if_pos isFull
      have same : enqueue phys queue frame = queue.dropWhile Pending.done := if_pos isFull
      simp only [TxEvent.freed, refused, same, parts]
      exact append_nil _
    · have taken : verdict queue = 0 := if_neg isFull
      have longer : enqueue phys queue frame =
        queue.dropWhile Pending.done ++ [Pending.of phys frame] := if_neg isFull
      simp only [TxEvent.freed, taken, longer, map_append,
        ← append_assoc, parts]
      rfl
  | complete index =>
    obtain ⟨inFlight, unset, rfl⟩ := step
    obtain ⟨offset, below, rfl⟩ := represents.inFlight_iff.mp inFlight
    refine ⟨_, represents.complete below unset, ?_⟩
    have place : offset < (queue.map Pending.skb).length := by rwa [length_map]
    have same := set_getElem_self place
    rw [getElem_map] at same
    rw [map_set]
    simpa only [TxEvent.accepted, TxEvent.freed, append_nil, nil_append] using same.symm

end Adapter.Represents

theorem setupTx_represents : setupTx.Represents [] :=
  ⟨⟨by decide, by decide, rfl, rfl, rfl, rfl⟩, rfl⟩

variable {phys : Nat → Nat} {trace : List TxEvent}

theorem run_represents (run : Run (TxStep phys) setupTx trace adapter) :
    ∃ queue, adapter.Represents queue ∧
      trace.flatMap TxEvent.accepted = trace.flatMap TxEvent.freed ++ queue.map Pending.skb := by
  induction run with
  | nil => exact ⟨[], setupTx_represents, rfl⟩
  | @snoc trace before after event earlier last ih =>
    obtain ⟨queue, represents, balanced⟩ := ih
    obtain ⟨later, holds, moved⟩ := represents.step last
    refine ⟨later, holds, ?_⟩
    rw [flatMap_append, flatMap_append, flatMap_singleton, flatMap_singleton,
      balanced, append_assoc, append_assoc, moved]

/-- The slots in use hold the accepted buffers that were not freed, in the order of the
calls.  The next call frees those in front that are done, is refused exactly if seven
remain, and overwrites none that is not done. -/
theorem e1000_tx_ring_run (run : Run (TxStep phys) setupTx trace adapter) :
    ∃ queue, adapter.Represents queue ∧
      trace.flatMap TxEvent.accepted = trace.flatMap TxEvent.freed ++ queue.map Pending.skb ∧
      (∀ index < numTxDesc, adapter.txSkbs index ≠ none ↔ adapter.InFlight index) ∧
      ∀ frame, ∃ result after,
        e1000StartXmit phys adapter frame =
          some (result, (queue.takeWhile Pending.done).map Pending.skb, after) ∧
        after.Represents (enqueue phys queue frame) ∧
        (result = -1 ↔ (queue.dropWhile Pending.done).length = 7) ∧
        (result = -1 → after.txCur = adapter.txCur ∧ after.tdt = adapter.tdt ∧
          ∀ index, ¬adapter.Cleaned queue index →
            after.txDescs index = adapter.txDescs index ∧ after.txSkbs index = adapter.txSkbs index) ∧
        ∀ index, adapter.InFlight index → (adapter.txDescs index).status % 2 = 0 →
          after.txDescs index = adapter.txDescs index ∧ after.txSkbs index = adapter.txSkbs index := by
  obtain ⟨queue, represents, balanced⟩ := run_represents run
  refine ⟨queue, represents, balanced, fun index inside => represents.slot_iff inside, fun frame => ?_⟩
  obtain ⟨after, returned, holds, refused, kept⟩ := represents.startXmit phys frame
  refine ⟨_, after, returned, holds, ?_, ?_, ?_⟩
  · rw [verdict]
    split
    · rename_i full
      exact iff_of_true rfl (Nat.succ.inj full)
    · rename_i room
      exact iff_of_false (by decide) fun seven => room (congrArg Nat.succ seven)
  · intro full
    obtain ⟨cur, tdt⟩ := refused full
    exact ⟨cur, tdt, fun index apart => kept index (.inr full) apart⟩
  · intro index inFlight unset
    refine kept index (.inl (represents.ne_txCur inFlight)) fun cleaned => ?_
    have set := represents.cleaned_done cleaned
    omega

def threeFrames : List TxEvent :=
  [.xmit ⟨1, 100, 60⟩ 0 [], .xmit ⟨2, 200, 60⟩ 0 [], .complete 0, .xmit ⟨3, 300, 60⟩ 0 [1]]

def TxEvent.outcome (adapter : Adapter) : TxEvent → Adapter
  | .xmit frame _ _ => ((e1000StartXmit id adapter frame).map fun result => result.2.2).getD adapter
  | .complete index => adapter.complete index

theorem e1000_tx_ring_run_three :
    Run (TxStep id) setupTx threeFrames (threeFrames.foldl TxEvent.outcome setupTx) ∧
    ∃ queue : List Pending, [1, 2, 3] = 1 :: queue.map Pending.skb := by
  have run : Run (TxStep id) setupTx threeFrames (threeFrames.foldl TxEvent.outcome setupTx) := by
    apply Run.of_performs
    exact ⟨rfl, rfl, ⟨⟨0, by decide, rfl⟩, rfl, rfl⟩, rfl, trivial⟩
  obtain ⟨queue, -, balanced, -⟩ := e1000_tx_ring_run run
  exact ⟨run, queue, balanced⟩

end Rucix.Net.E1000
