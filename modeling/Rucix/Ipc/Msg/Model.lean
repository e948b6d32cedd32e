import Rucix.Data.Bytes
import Rucix.Data.Links
import Rucix.Data.Run

namespace Rucix.Ipc

open Rucix.Data Function

/-! Message queues: what `sys_msgsnd` and `sys_msgrcv` of `kernel/ipc/msg.c` do with
the queue while they hold `q->lock`.

The text of a message is the list of the `msgsz` bytes behind the type.
-/

def msgSize : Nat := 1024

structure MsgEntry where
  type : Int
  data : Block
  size : Nat
  next : Option Nat

/-- A queue and the memory of its entries. -/
structure MsgQueue where
  entries : Nat → MsgEntry
  allocated : Nat → Bool
  head : Option Nat
  tail : Option Nat
  count : Int

/-- What `sys_msgrcv` puts into the caller's buffer; it returns the number of
bytes. -/
structure Delivery where
  type : Int
  text : List UInt8
deriving DecidableEq, Repr

namespace MsgQueue

/-- The queue that `sys_msgget` makes. -/
def create (entries : Nat → MsgEntry) : MsgQueue where
  entries := entries
  allocated := fun _ => false
  head := none
  tail := none
  count := 0

def setEntry (queue : MsgQueue) (address : Nat) (entry : MsgEntry) : MsgQueue :=
  { queue with entries := update queue.entries address entry }

def setNext (queue : MsgQueue) (address : Nat) (next : Option Nat) : MsgQueue :=
  queue.setEntry address { queue.entries address with next }

/-- `kmalloc` gives a block, which still has some contents, to the entry. -/
def fill (queue : MsgQueue) (address : Nat) (garbage : Block) (type : Int) (text : List UInt8) :
    MsgQueue :=
  { queue.setEntry address { type, data := garbage.put 0 text, size := text.length, next := none } with
    allocated := update queue.allocated address true }

def append (queue : MsgQueue) (address : Nat) : MsgQueue :=
  match queue.tail with
  | some last =>
    { queue.setNext last (some address) with tail := some address, count := queue.count + 1 }
  | none => { queue with head := some address, tail := some address, count := queue.count + 1 }

/-- `memory` is the result of `kmalloc`. -/
def sysMsgsnd (queue : MsgQueue) (type : Int) (text : List UInt8) (memory : Option (Nat × Block)) :
    Int × MsgQueue :=
  if msgSize < text.length then (-1, queue)
  else
    match memory with
    | none => (-1, queue)
    | some (address, garbage) => (0, (queue.fill address garbage type text).append address)

/-- `msgtyp == 0 || curr->type == msgtyp` -/
def Accepts (msgtyp type : Int) : Bool := msgtyp = 0 ∨ type = msgtyp

/-- The scan of `sys_msgrcv`: the entry in front of the match, and the match. -/
def scan (queue : MsgQueue) (msgtyp : Int) :
    (fuel : Nat) → (prev curr : Option Nat) → Option (Option Nat × Option Nat)
  | 0, _, _ => none
  | _ + 1, prev, none => some (prev, none)
  | fuel + 1, prev, some address =>
    if Accepts msgtyp (queue.entries address).type then some (prev, some address)
    else queue.scan msgtyp fuel (some address) (queue.entries address).next

/-- Take the match off the list. -/
def unlink (queue : MsgQueue) (prev : Option Nat) (address : Nat) : MsgQueue :=
  let next := (queue.entries address).next
  match prev with
  | some before =>
    { queue.setNext before next with
      tail := if queue.tail = some address then some before else queue.tail
      count := queue.count - 1 }
  | none =>
    { queue with
      head := next
      tail := if next = none then none else queue.tail
      count := queue.count - 1 }

def kfree (queue : MsgQueue) (address : Nat) : MsgQueue :=
  { queue with allocated := update queue.allocated address false }

def deliver (entry : MsgEntry) (msgsz : Nat) : Delivery where
  type := entry.type
  text := (List.range (if msgsz < entry.size then msgsz else entry.size)).map entry.data

/-- One turn of the loop of `sys_msgrcv`; without a match it goes on to
`cond_wait`. -/
def sysMsgrcv (fuel : Nat) (queue : MsgQueue) (msgtyp : Int) (msgsz : Nat) :
    Option (Option Delivery × MsgQueue) := do
  let (prev, found) ← queue.scan msgtyp fuel none queue.head
  match found with
  | none => return (none, queue)
  | some address =>
    return (some (deliver (queue.entries address) msgsz), (queue.unlink prev address).kfree address)

end MsgQueue

inductive MsgOp where
  | msgsnd (type : Int) (text : List UInt8) (memory : Option (Nat × Block)) (result : Int)
  | msgrcv (msgtyp : Int) (msgsz : Nat) (result : Option Delivery)

/-- `kmalloc` does not give out the memory of an entry that is in use. -/
def MsgStep (before : MsgQueue) (op : MsgOp) (after : MsgQueue) : Prop :=
  match op with
  | .msgsnd type text memory result =>
    (∀ address garbage, memory = some (address, garbage) → before.allocated address = false) ∧
      before.sysMsgsnd type text memory = (result, after)
  | .msgrcv msgtyp msgsz result => ∃ fuel, before.sysMsgrcv fuel msgtyp msgsz = some (result, after)

end Rucix.Ipc
