import Rucix.Ipc.Msg.Queue

namespace Rucix.Ipc

open Rucix.Data List

/-! The mailbox that a message queue implements: messages are numbered as they are
sent, and a receive takes the first one it wants.
-/

structure Mailbox where
  sent : List Delivery
  waiting : List Nat
  delivered : List Nat

namespace Mailbox

def empty : Mailbox where
  sent := []
  waiting := []
  delivered := []

def Wants (box : Mailbox) (msgtyp : Int) (number : Nat) : Bool :=
  (box.sent[number]?).any fun message => MsgQueue.Accepts msgtyp message.type

def send (box : Mailbox) (message : Delivery) : Mailbox :=
  { box with sent := box.sent ++ [message], waiting := box.waiting ++ [box.sent.length] }

def take (box : Mailbox) (before : List Nat) (number : Nat) (behind : List Nat) : Mailbox :=
  { box with waiting := before ++ behind, delivered := box.delivered ++ [number] }

end Mailbox

def Delivery.truncate (message : Delivery) (msgsz : Nat) : Delivery :=
  { message with text := message.text.take msgsz }

inductive MailboxStep : Mailbox → MsgOp → Mailbox → Prop where
  | refused {box type text memory} (failed : msgSize < text.length ∨ memory = none) :
      MailboxStep box (.msgsnd type text memory (-1)) box
  | accepted {box type text memory} (short : text.length ≤ msgSize) :
      MailboxStep box (.msgsnd type text (some memory) 0) (box.send { type, text })
  | blocked {box msgtyp msgsz} (nothing : ∀ number ∈ box.waiting, box.Wants msgtyp number = false) :
      MailboxStep box (.msgrcv msgtyp msgsz none) box
  | received {box msgtyp msgsz message before number behind}
      (shape : box.waiting = before ++ number :: behind)
      (passed : ∀ other ∈ before, box.Wants msgtyp other = false)
      (found : box.sent[number]? = some message) (wanted : box.Wants msgtyp number = true) :
      MailboxStep box (.msgrcv msgtyp msgsz (some (message.truncate msgsz)))
        (box.take before number behind)

namespace Mailbox

variable {box after : Mailbox} {op : MsgOp} {message : Delivery} {before behind : List Nat} {number : Nat}

/-- The waiting messages are in the order of sending, and every accepted message
either waits or has been delivered, once. -/
structure Ordered (box : Mailbox) : Prop where
  sorted : box.waiting.Pairwise (· < ·)
  once : (box.waiting ++ box.delivered).Nodup
  complete : ∀ number, number ∈ box.waiting ++ box.delivered ↔ number < box.sent.length

theorem ordered_empty : empty.Ordered :=
  ⟨.nil, nodup_nil, fun _ => iff_of_false not_mem_nil (Nat.not_lt_zero _)⟩

namespace Ordered

variable (ordered : box.Ordered)
include ordered

theorem known (member : number ∈ box.waiting) : number < box.sent.length :=
  (ordered.complete number).mp (mem_append_left _ member)

theorem send : (box.send message).Ordered := by
  have fresh : box.sent.length ∉ box.waiting ++ box.delivered := fun member =>
    Nat.lt_irrefl _ ((ordered.complete _).mp member)
  have moved : (box.waiting ++ [box.sent.length] ++ box.delivered).Perm
      (box.sent.length :: (box.waiting ++ box.delivered)) := by
    rw [append_assoc]
    exact perm_middle
  refine ⟨pairwise_append.mpr ⟨ordered.sorted, pairwise_singleton .., ?_⟩, ?_, ?_⟩
  · intro first member second single
    rw [mem_singleton.mp single]
    exact ordered.known member
  · exact moved.nodup_iff.mpr (nodup_cons.mpr ⟨fresh, ordered.once⟩)
  · simp only [Mailbox.send, moved.mem_iff, mem_cons, ordered.complete, length_append,
      length_singleton]
    omega

theorem take (shape : box.waiting = before ++ number :: behind) :
    (box.take before number behind).Ordered := by
  have moved : (before ++ behind ++ (box.delivered ++ [number])).Perm (box.waiting ++ box.delivered) := by
    rw [shape, ← append_assoc]
    calc
      (before ++ behind ++ box.delivered ++ [number]).Perm (number :: (before ++ behind ++ box.delivered)) :=
        perm_append_singleton ..
      _ = number :: (before ++ (behind ++ box.delivered)) := by rw [append_assoc]
      (number :: (before ++ (behind ++ box.delivered))).Perm (before ++ number :: (behind ++ box.delivered)) :=
        perm_middle.symm
      _ = before ++ number :: behind ++ box.delivered := by rw [append_assoc, cons_append]
  refine ⟨?_, moved.nodup_iff.mpr ordered.once, fun other => ?_⟩
  · refine ordered.sorted.sublist ?_
    rw [shape]
    exact List.Sublist.append (List.Sublist.refl before) (sublist_cons_self number behind)
  · exact moved.mem_iff.trans (ordered.complete other)

theorem step (step : MailboxStep box op after) : after.Ordered := by
  cases step with
  | refused | blocked => exact ordered
  | accepted => exact ordered.send
  | received shape => exact ordered.take shape

theorem oldest (shape : box.waiting = before ++ number :: behind)
    (passed : ∀ other ∈ before, box.Wants msgtyp other = false) (member : other ∈ box.waiting)
    (wanted : box.Wants msgtyp other = true) : number ≤ other := by
  have sorted := ordered.sorted
  rw [shape] at sorted member
  rcases mem_append.mp member with early | late
  · cases (passed other early).symm.trans wanted
  · rcases mem_cons.mp late with same | behind
    · exact same.ge
    · have tail := (pairwise_append.mp sorted).2.1
      exact (rel_of_pairwise_cons tail behind).le

end Ordered

end Mailbox

namespace MsgQueue

variable {queue after : MsgQueue} {addresses before behind : List Nat} {address : Nat} {box : Mailbox}
  {op : MsgOp} {msgtyp : Int}

theorem deliver_eq : deliver entry msgsz = entry.message.truncate msgsz := by
  have least : (if msgsz < entry.size then msgsz else entry.size) = min msgsz entry.size := by
    split <;> omega
  simp only [deliver, Delivery.truncate, MsgEntry.message, ← map_take, take_range, least]

structure Represents (queue : MsgQueue) (box : Mailbox) (addresses : List Nat) : Prop where
  chained : queue.Chained addresses
  contents : box.waiting.map (fun number => box.sent[number]?) =
    addresses.map fun address => some (queue.message address)

theorem represents_create (entries : Nat → MsgEntry) : (create entries).Represents .empty [] :=
  ⟨chained_create entries, rfl⟩

theorem Represents.split (represents : queue.Represents box addresses)
    (shape : addresses = before ++ address :: behind) :
    ∃ front number rest, box.waiting = front ++ number :: rest ∧
      box.sent[number]? = some (queue.message address) ∧
      front.map (fun number => box.sent[number]?) = before.map (fun address => some (queue.message address)) ∧
      rest.map (fun number => box.sent[number]?) =
        behind.map fun address => some (queue.message address) := by
  have contents := represents.contents
  rw [shape, map_append] at contents
  obtain ⟨front, tail, waiting, first, second⟩ := map_eq_append_iff.mp contents
  obtain ⟨number, rest, rfl, here, others⟩ := map_eq_cons_iff.mp second
  exact ⟨front, number, rest, waiting, here, first, others⟩

theorem rejected_of_contents {numbers : List Nat} (same : numbers.map (fun number => box.sent[number]?) =
      addresses.map fun address => some (queue.message address))
    (rejected : ∀ address ∈ addresses, queue.Rejects msgtyp address) :
    ∀ number ∈ numbers, box.Wants msgtyp number = false := by
  intro number member
  have listed : box.sent[number]? ∈ addresses.map fun address => some (queue.message address) := by
    rw [← same]
    exact mem_map_of_mem member
  obtain ⟨address, member, found⟩ := mem_map.mp listed
  have refused := rejected address member
  simp only [Rejects, Bool.not_eq_true'] at refused
  rw [Mailbox.Wants, ← found, Option.any_some, refused]

structure Implements (queue : MsgQueue) (box : Mailbox) : Prop where
  ordered : box.Ordered
  represents : ∃ addresses, queue.Represents box addresses

theorem Represents.step (represents : queue.Represents box addresses) (ordered : box.Ordered)
    (step : MsgStep queue op after) : ∃ next places, MailboxStep box op next ∧ after.Represents next places := by
  cases op with
  | msgsnd type text memory result =>
    obtain ⟨fresh, done⟩ := step
    rcases represents.chained.sysMsgsnd fresh done with ⟨failed, rfl, rfl⟩ |
      ⟨address, garbage, rfl, short, rfl, outside, chained, message, others⟩
    · exact ⟨box, addresses, .refused failed, represents⟩
    · refine ⟨_, _, .accepted short, chained, ?_⟩
      have old : box.waiting.map (fun number => (box.sent ++ [Delivery.mk type text])[number]?) =
          addresses.map fun address => some (after.message address) := by
        have same : ∀ number ∈ box.waiting,
            (box.sent ++ [Delivery.mk type text])[number]? = box.sent[number]? := fun number member =>
          getElem?_append_left (ordered.known member)
        rw [map_congr_left same, represents.contents]
        refine map_congr_left fun other member => ?_
        rw [others other (ne_of_mem_of_not_mem member outside)]
      simp only [Mailbox.send, map_append, old, map_singleton, message]
      simp
  | msgrcv msgtyp msgsz result =>
    obtain ⟨fuel, done⟩ := step
    rcases represents.chained.sysMsgrcv done with ⟨rejected, rfl, rfl⟩ |
      ⟨before, address, behind, shape, passed, accepted, rfl, chained, messages⟩
    · exact ⟨box, addresses, .blocked (rejected_of_contents represents.contents rejected), represents⟩
    · obtain ⟨front, number, rest, waiting, found, first, others⟩ := represents.split shape
      have wanted : box.Wants msgtyp number = true := by
        simp only [Rejects, Bool.not_eq_false'] at accepted
        rw [Mailbox.Wants, found, Option.any_some, accepted]
      refine ⟨box.take front number rest, _, ?_, chained, ?_⟩
      · rw [deliver_eq]
        exact .received waiting (rejected_of_contents first passed) found wanted
      · simp only [Mailbox.take, map_append, first, others, messages]

theorem Implements.step (implements : queue.Implements box) (step : MsgStep queue op after) :
    ∃ next, MailboxStep box op next ∧ after.Implements next := by
  obtain ⟨ordered, addresses, represents⟩ := implements
  obtain ⟨next, places, stepped, represents⟩ := represents.step ordered step
  exact ⟨next, stepped, ordered.step stepped, places, represents⟩

end MsgQueue

/-- A queue behaves as a mailbox: each accepted message is delivered at most once, every
receive ends, blocks only if nothing it accepts is there and otherwise delivers the oldest
message it accepts, and a failed send changes nothing. -/
theorem message_queue_run {entries : Nat → MsgEntry} {trace : List MsgOp} {queue : MsgQueue}
    (run : Run MsgStep (.create entries) trace queue) :
    ∃ box addresses, Run MailboxStep .empty trace box ∧ box.Ordered ∧ queue.Represents box addresses ∧
      (queue.head = none ↔ queue.tail = none) ∧
      (∀ msgtyp msgsz, ∃ result after, MsgStep queue (.msgrcv msgtyp msgsz result) after) ∧
      (∀ msgtyp msgsz after, MsgStep queue (.msgrcv msgtyp msgsz none) after →
        ∀ number ∈ box.waiting, box.Wants msgtyp number = false) ∧
      (∀ msgtyp msgsz delivery after, MsgStep queue (.msgrcv msgtyp msgsz (some delivery)) after →
        ∃ number ∈ box.waiting, box.Wants msgtyp number = true ∧
          box.sent[number]?.map (·.truncate msgsz) = some delivery ∧
          ∀ other ∈ box.waiting, box.Wants msgtyp other = true → number ≤ other) ∧
      ∀ type text memory after, MsgStep queue (.msgsnd type text memory (-1)) after → after = queue := by
  have start : (MsgQueue.create entries).Implements .empty :=
    ⟨Mailbox.ordered_empty, [], MsgQueue.represents_create entries⟩
  obtain ⟨box, matching, ordered, addresses, represents⟩ :=
    run.simulate start fun _ _ _ _ implements step => implements.step step
  have chained := represents.chained
  refine ⟨box, addresses, matching, ordered, represents, ?_, fun msgtyp msgsz => ?_,
    fun msgtyp msgsz after step => ?_, fun msgtyp msgsz delivery after step => ?_,
    fun type text memory after step => ?_⟩
  · rw [chained.linked.head_eq, chained.tail]
    cases addresses <;> simp
  · obtain ⟨⟨result, after⟩, done⟩ := Option.isSome_iff_exists.mp (chained.sysMsgrcv_isSome)
    exact ⟨result, after, _, done⟩
  · obtain ⟨next, places, stepped, -⟩ := represents.step ordered step
    cases stepped with
    | blocked nothing => exact nothing
  · obtain ⟨next, places, stepped, -⟩ := represents.step ordered step
    cases stepped with
    | received shape passed found wanted =>
      exact ⟨_, by simp [shape], wanted, by simp [found], fun _ => ordered.oldest shape passed⟩
  · rcases chained.sysMsgsnd step.1 step.2 with ⟨-, -, same⟩ | ⟨_, _, _, _, wrong, _⟩
    · exact same
    · cases wrong

def sendAndReceive : List MsgOp :=
  [.msgsnd 1 [7, 8] (some (0, Block.zero)) 0, .msgsnd 2 [9] none (-1), .msgrcv 1 1 (some ⟨1, [7]⟩)]

theorem message_queue_run_send_receive : ∃ box, Run MailboxStep .empty sendAndReceive box ∧ box.Ordered := by
  let start : MsgQueue := .create fun _ => ⟨0, Block.zero, 0, none⟩
  let sent := (start.sysMsgsnd 1 [7, 8] (some (0, Block.zero))).2
  have sending : MsgStep start (.msgsnd 1 [7, 8] (some (0, Block.zero)) 0) sent := ⟨fun _ _ _ => rfl, rfl⟩
  have failing : MsgStep sent (.msgsnd 2 [9] none (-1)) sent := ⟨fun _ _ given => (nomatch given), rfl⟩
  obtain ⟨after, receiving⟩ : ∃ after, sent.sysMsgrcv 3 1 1 = some (some ⟨1, [7]⟩, after) := ⟨_, rfl⟩
  have run : Run MsgStep start sendAndReceive after :=
    .snoc (.snoc (.snoc .nil sending) failing) ⟨3, receiving⟩
  obtain ⟨box, -, matching, ordered, -⟩ := message_queue_run run
  exact ⟨box, matching, ordered⟩

end Rucix.Ipc
