import Mathlib.Data.List.TakeWhile
import Rucix.Ipc.Msg.Model

namespace Rucix.Ipc

open Rucix.Data Function List

/-! The list of a message queue, and the mailbox it implements. -/

def MsgEntry.message (entry : MsgEntry) : Delivery where
  type := entry.type
  text := (List.range entry.size).map entry.data

namespace MsgQueue

variable {queue after : MsgQueue} {addresses before behind : List Nat} {address other fuel msgsz : Nat}
  {msgtyp type : Int} {text : List UInt8} {prev curr : Option Nat}

def next (queue : MsgQueue) (address : Nat) : Option Nat := (queue.entries address).next

def message (queue : MsgQueue) (address : Nat) : Delivery := (queue.entries address).message

/-- Following `next` from `head` visits the addresses and ends at the last one,
which is `tail`. -/
structure Chained (queue : MsgQueue) (addresses : List Nat) : Prop where
  linked : Linked queue.next queue.head addresses none
  tail : queue.tail = addresses.getLast?
  count : queue.count = addresses.length
  live : ∀ address ∈ addresses, queue.allocated address = true

theorem chained_create (entries : Nat → MsgEntry) : (create entries).Chained [] :=
  ⟨rfl, rfl, rfl, fun _ member => absurd member not_mem_nil⟩

theorem setEntry_next :
    (queue.setEntry address entry).next = update queue.next address entry.next := by
  funext other
  by_cases same : other = address <;> simp [next, setEntry, same]

theorem setNext_next : (queue.setNext address link).next = update queue.next address link :=
  setEntry_next ..

theorem setNext_message : (queue.setNext address link).message = queue.message := by
  funext other
  by_cases same : other = address <;> simp [message, setNext, setEntry, MsgEntry.message, same]

theorem fill_message : (queue.fill address garbage type text).message address = { type, text } := by
  have bytes : (List.range text.length).map (garbage.put 0 text) = text := by
    refine ext_getElem (by simp) fun index first second => ?_
    have inside : garbage.put 0 text (0 + index) = text[index] := Block.put_inside second
    simpa using inside
  simp [message, fill, setEntry, MsgEntry.message, bytes]

theorem fill_message_of_ne (different : other ≠ address) :
    (queue.fill address garbage type text).message other = queue.message other := by
  simp [message, fill, setEntry, different]

theorem append_message : (queue.append address).message = queue.message := by
  rw [append]
  split
  · exact setNext_message ..
  · rfl

def Rejects (queue : MsgQueue) (msgtyp : Int) (address : Nat) : Bool :=
  !Accepts msgtyp (queue.message address).type

/-- The scan stops at the first entry that is accepted, unless the fuel does not reach. -/
theorem scan_eq (prev : Option Nat) (linked : Linked queue.next curr addresses none) :
    queue.scan msgtyp fuel prev curr = some ((addresses.takeWhile (queue.Rejects msgtyp)).getLast?.or prev,
        (addresses.dropWhile (queue.Rejects msgtyp)).head?) ∨
      queue.scan msgtyp fuel prev curr = none ∧ fuel ≤ addresses.length := by
  induction addresses generalizing fuel prev curr with
  | nil =>
    cases (linked : curr = none)
    cases fuel with
    | zero => exact .inr ⟨rfl, le_rfl⟩
    | succ fuel => exact .inl rfl
  | cons address rest ih =>
    obtain ⟨rfl, tail⟩ := linked
    cases fuel with
    | zero => exact .inr ⟨rfl, Nat.zero_le _⟩
    | succ fuel =>
      have behind : Linked queue.next (queue.entries address).next rest none := tail
      have isType : (queue.message address).type = (queue.entries address).type := rfl
      cases accepted : Accepts msgtyp (queue.entries address).type with
      | true =>
        have stops : queue.Rejects msgtyp address = false := by simp [Rejects, isType, accepted]
        exact .inl (by simp [scan, accepted, stops])
      | false =>
        have goesOn : queue.Rejects msgtyp address = true := by simp [Rejects, isType, accepted]
        rw [scan, if_neg (by simp [accepted]), takeWhile_cons_of_pos goesOn, dropWhile_cons_of_pos goesOn,
          getLast?_cons]
        refine (ih (some address) behind).imp (fun found => found.trans ?_)
          fun ⟨spent, short⟩ => ⟨spent, Nat.succ_le_succ short⟩
        cases (rest.takeWhile (queue.Rejects msgtyp)).getLast? <;> rfl

theorem unlink_message : ((queue.unlink prev address).kfree address).message = queue.message := by
  cases prev with
  | none => rfl
  | some before => exact setNext_message ..

theorem Chained.unlink (chained : queue.Chained (before ++ address :: behind)) :
    ((queue.unlink before.getLast? address).kfree address).Chained (before ++ behind) := by
  have distinct := chained.linked.nodup
  rw [nodup_middle, nodup_cons] at distinct
  have live : ∀ other ∈ before ++ behind, update queue.allocated address false other = true := by
    intro other member
    rw [update_of_ne (ne_of_mem_of_not_mem member distinct.1)]
    refine chained.live other ?_
    rw [mem_append] at member
    rw [mem_append, mem_cons]
    exact member.imp_right .inr
  have shorter : queue.count - 1 = ((before ++ behind).length : Int) := by
    rw [chained.count]
    simp only [length_append, length_cons]
    omega
  rcases eq_nil_or_concat before with rfl | ⟨front, last, rfl⟩
  · obtain ⟨-, rest⟩ := chained.linked
    refine ⟨rest, ?_, shorter, live⟩
    change (if queue.next address = none then none else queue.tail) = behind.getLast?
    rw [chained.tail]
    exact chained.linked.getLast?_pop
  · simp only [concat_eq_append] at *
    have linked := chained.linked
    rw [append_assoc] at linked
    rw [getLast?_concat]
    refine ⟨?_, ?_, shorter, live⟩
    · change Linked (queue.setNext last (queue.next address)).next queue.head _ none
      rw [setNext_next, append_assoc]
      exact linked.skip linked.nodup
    · have removed := getLast?_remove chained.linked.nodup
      rwa [← chained.tail, getLast?_concat] at removed

namespace Chained

variable (chained : queue.Chained addresses)
include chained

theorem fill
    (fresh : queue.allocated address = false) : (queue.fill address garbage type text).Chained addresses := by
  have outside : address ∉ addresses := by
    intro member
    cases fresh.symm.trans (chained.live address member)
  refine ⟨?_, chained.tail, chained.count, fun other member => ?_⟩
  · change Linked (queue.setEntry address _).next queue.head addresses none
    rw [setEntry_next]
    exact chained.linked.update_outside outside _
  · have different : other ≠ address := ne_of_mem_of_not_mem member outside
    simpa [MsgQueue.fill, different] using chained.live other member

theorem append (outside : address ∉ addresses)
    (last : queue.next address = none) (live : queue.allocated address = true) :
    (queue.append address).Chained (addresses ++ [address]) := by
  have alive : ∀ other ∈ addresses ++ [address], queue.allocated other = true := by
    intro other member
    rcases mem_append.mp member with old | new
    · exact chained.live other old
    · rw [mem_singleton.mp new]
      exact live
  have longer : queue.count + 1 = ((addresses ++ [address]).length : Int) := by
    rw [chained.count, length_append]
    rfl
  rcases eq_nil_or_concat addresses with rfl | ⟨front, final, rfl⟩
  · have none : queue.tail = none := chained.tail
    rw [MsgQueue.append, none]
    exact ⟨⟨rfl, last⟩, rfl, longer, alive⟩
  · rw [concat_eq_append] at *
    have some : queue.tail = some final := by
      rw [chained.tail, getLast?_concat]
    rw [MsgQueue.append, some]
    refine ⟨?_, by simp, longer, alive⟩
    change Linked (queue.setNext final _).next queue.head _ none
    rw [setNext_next]
    exact chained.linked.push outside last

theorem sysMsgsnd (fresh : ∀ address garbage, memory = some (address, garbage) → queue.allocated address = false)
    (done : queue.sysMsgsnd type text memory = (result, after)) :
    ((msgSize < text.length ∨ memory = none) ∧ result = -1 ∧ after = queue) ∨
      ∃ address garbage, memory = some (address, garbage) ∧ text.length ≤ msgSize ∧ result = 0 ∧
        address ∉ addresses ∧ after.Chained (addresses ++ [address]) ∧
        after.message address = { type, text } ∧
        ∀ other, other ≠ address → after.message other = queue.message other := by
  simp only [MsgQueue.sysMsgsnd] at done
  split at done
  · rename_i long
    cases done
    exact .inl ⟨.inl long, rfl, rfl⟩
  · rename_i short
    cases memory with
    | none =>
      cases done
      exact .inl ⟨.inr rfl, rfl, rfl⟩
    | some block =>
      obtain ⟨address, garbage⟩ := block
      cases done
      have unused := fresh address garbage rfl
      have outside : address ∉ addresses := by
        intro member
        cases unused.symm.trans (chained.live address member)
      refine .inr ⟨address, garbage, rfl, Nat.le_of_not_lt short, rfl, outside,
        (chained.fill unused).append outside ?_ ?_, ?_, fun other different => ?_⟩
      · simp [next, MsgQueue.fill, setEntry]
      · simp [MsgQueue.fill]
      · rw [append_message, fill_message]
      · rw [append_message, fill_message_of_ne different]

theorem scan (done : queue.scan msgtyp fuel none queue.head = some found) :
    found = ((addresses.takeWhile (queue.Rejects msgtyp)).getLast?,
      (addresses.dropWhile (queue.Rejects msgtyp)).head?) := by
  rcases scan_eq none chained.linked with scanned | ⟨spent, -⟩
  · rw [scanned, Option.or_none] at done
    exact (Option.some.inj done).symm
  · cases spent.symm.trans done

/-- A receive takes the first entry of an accepted type off the list, and finds
nothing only if no entry is accepted. -/
theorem sysMsgrcv (done : queue.sysMsgrcv fuel msgtyp msgsz = some (result, after)) :
    ((∀ address ∈ addresses, queue.Rejects msgtyp address) ∧ result = none ∧ after = queue) ∨
      ∃ before address behind, addresses = before ++ address :: behind ∧
        (∀ other ∈ before, queue.Rejects msgtyp other) ∧ queue.Rejects msgtyp address = false ∧
        result = some (deliver (queue.entries address) msgsz) ∧ after.Chained (before ++ behind) ∧
        after.message = queue.message := by
  obtain ⟨⟨prev, found⟩, scanned, done⟩ := Option.bind_eq_some_iff.mp done
  have stops := chained.scan scanned
  obtain ⟨rfl, rfl⟩ := stops
  have split := takeWhile_append_dropWhile (p := queue.Rejects msgtyp) (l := addresses)
  have passed : ∀ other ∈ addresses.takeWhile (queue.Rejects msgtyp), queue.Rejects msgtyp other :=
    fun other member => mem_takeWhile_imp member
  cases rest : addresses.dropWhile (queue.Rejects msgtyp) with
  | nil =>
    rw [rest] at done split
    cases done
    rw [append_nil] at split
    rw [split] at passed
    exact .inl ⟨passed, rfl, rfl⟩
  | cons address behind =>
    rw [rest] at done split
    cases done
    have accepted : queue.Rejects msgtyp address = false := by
      have first := head_dropWhile_not (queue.Rejects msgtyp) (l := addresses) (by simp [rest])
      simpa [rest] using first
    rw [← split] at chained
    exact .inr ⟨_, address, behind, split.symm, passed, accepted, rfl, chained.unlink, unlink_message ..⟩

theorem sysMsgrcv_isSome : (queue.sysMsgrcv (addresses.length + 1) msgtyp msgsz).isSome := by
  rcases scan_eq none chained.linked with scanned | ⟨-, short⟩
  · rw [MsgQueue.sysMsgrcv, scanned]
    simp only [Option.bind_eq_bind, Option.bind_some]
    split <;> rfl
  · exact absurd short (Nat.not_succ_le_self _)

end Chained

end MsgQueue

end Rucix.Ipc
