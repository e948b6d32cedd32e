import Rucix.Net.E1000
import Rucix.Net.Receive
import Rucix.Net.Send

namespace Rucix.Net

open Rucix.Data E1000 List

/-! Who owns a buffer that is given to `netif_rx` or `dev_queue_xmit`.

`kfree_skb` and every access to a buffer that was freed are a problem.
-/

/-- The drivers that set `start_xmit`. -/
inductive Driver where
  | loopback
  | e1000
deriving DecidableEq

inductive Problem where
  | access (fault : Fault)
  | freed
  | fuel
deriving DecidableEq

/-- A buffer on its way, the transmit ring and the buffers that were freed. -/
structure Path where
  rx : RxState
  adapter : Adapter
  freed : List Nat

abbrev Own := StateT Path (Except Problem)

structure Buffer where
  skb : Nat
  base : Nat

namespace Buffer

variable (buffer : Buffer) (phys : Nat → Nat)

def touch {α : Type} (action : Rx α) : Own α := fun path =>
  if buffer.skb ∈ path.freed then .error .freed
  else
    match action.run path.rx with
    | .ok (value, rx) => .ok (value, { path with rx })
    | .error fault => .error (.access fault)

def kfreeSkb : Own Unit := do
  buffer.touch (return ())
  modify fun path => { path with freed := path.freed ++ [buffer.skb] }

/-- `e1000_start_xmit` uses the buffer behind `e1000_clean_tx` if the ring has room. -/
def e1000Xmit : Own Unit := do
  let path ← get
  let frame := { skb := buffer.skb, data := buffer.base + path.rx.skb.data, len := path.rx.skb.len }
  match e1000StartXmit phys path.adapter frame with
  | none => throw .fuel
  | some (result, freed, adapter) => do
    set { path with adapter, freed := path.freed ++ freed }
    if result = 0 then buffer.touch (return ()) else return ()

/-- What follows on a function of the stack; `dhcp_input` keeps the buffer. -/
def conclude (startXmit : Own Unit) : Fate → Own Unit
  | .freed => buffer.kfreeSkb
  | .kept => return ()
  | .sent => startXmit

/-- `loopback_xmit` comes back to `netif_rx`. -/
def startXmit (driver : Driver) : (fuel : Nat) → Own Unit
  | 0 => throw .fuel
  | fuel + 1 =>
    match driver with
    | .e1000 => buffer.e1000Xmit phys
    | .loopback => do buffer.conclude (startXmit driver fuel) (← buffer.touch loopbackXmit)

end Buffer

inductive Entry where
  | netifRx
  | devQueueXmit (hasDevice : Bool)
deriving DecidableEq

def give (buffer : Buffer) (phys : Nat → Nat) (driver : Driver) (fuel : Nat) : Entry → Own Unit
  | .netifRx => do buffer.conclude (buffer.startXmit phys driver fuel) (← buffer.touch netifRx)
  | .devQueueXmit true => do
    buffer.conclude (buffer.startXmit phys driver fuel) (← buffer.touch (devQueueXmit (return .sent)))
  | .devQueueXmit false => buffer.conclude (buffer.startXmit phys driver fuel) .freed

/-! What becomes of a packet, by its headers and the ring. -/

/-- A UDP packet for port 68. -/
structure SkBuff.DhcpBound (skb : SkBuff) : Prop where
  ip : skb.protocol = 0x0008
  long : 28 ≤ skb.len
  version : skb.bytes skb.data / 16 = 4
  udp : skb.bytes (skb.data + 9) = 17
  port : swap16 (skb.bytes.get16 (skb.data + 22)) = 68

/-- An ARP or an ICMP packet. -/
def SkBuff.Answerable (skb : SkBuff) : Prop :=
  skb.protocol = 0x0608 ∨ skb.protocol = 0x0008 ∧ skb.bytes (skb.data + 9) = 1

/-- The packet in a frame that `loopback_xmit` is given. -/
def SkBuff.looped (skb : SkBuff) : SkBuff := { skb.pulled with protocol := skb.bytes.get16 (skb.data + 12) }

/-- The oldest of seven frames in the ring is not transmitted yet. -/
def E1000.Adapter.Full (adapter : Adapter) : Prop :=
  (adapter.txCur + 1) % numTxDesc = adapter.txClean ∧ (adapter.txDescs adapter.txClean).status % 2 = 0

/-- `start_xmit` does not lose the buffer: the ring has room, or no packet on the way over
the loopback device is for port 68. -/
def Passes (adapter : Adapter) (rx : RxState) : Driver → Prop
  | .e1000 => ¬adapter.Full
  | .loopback => ∀ later,
    Relation.ReflTransGen (fun before after => loopbackXmit.run before = .ok (.sent, after)) rx later →
      ¬later.skb.looped.DhcpBound

def Fits (adapter : Adapter) (rx : RxState) (driver : Driver) : Entry → Prop
  | .netifRx => ¬rx.skb.DhcpBound ∧
    match driver with
    | .e1000 => rx.skb.Answerable → ¬adapter.Full
    | .loopback => ∀ reply, netifRx.run rx = .ok (.sent, reply) → Passes adapter reply .loopback
  | .devQueueXmit hasDevice => hasDevice = true → rx.dev.startXmit = true → Passes adapter rx driver

def Returns (action : Rx Fate) (state : RxState) (allowed : Fate → Prop) : Prop :=
  ∀ fate after, action.run state = .ok (fate, after) → allowed fate

namespace Returns

variable {α : Type} {state : RxState} {allowed : Fate → Prop} {next : α → Rx Fate}

theorem pure (holds : allowed fate) : Returns (Pure.pure fate) state allowed := by
  rintro _ _ ⟨⟩
  exact holds

theorem imp (returns : Returns action state allowed) (implies : ∀ fate, allowed fate → weaker fate) :
    Returns action state weaker :=
  fun fate after ran => implies fate (returns fate after ran)

theorem bind (rest : ∀ value after, action.run state = .ok (value, after) → Returns (next value) after allowed) :
    Returns (action >>= next) state allowed := by
  intro fate final ran
  rw [StateT.run_bind] at ran
  cases first : action.run state with
  | error fault =>
    rw [first] at ran
    cases ran
  | ok result =>
    rw [first] at ran
    exact rest result.1 result.2 first fate final ran

theorem read {offset count : Nat} {value : Block → α} (rest : Returns (next (value state.skb.bytes)) state allowed) :
    Returns (readField offset count value >>= next) state allowed := by
  refine .bind fun result after ran => ?_
  obtain ⟨rfl, rfl⟩ := (readField_guards offset value state).post_of_ok ran
  exact rest

end Returns

theorem replies_not_kept : Returns arpRcv state (· ≠ .kept) ∧ Returns icmpRcv state (· ≠ .kept) := by
  unfold arpRcv arpReply icmpRcv icmpReply
  constructor
  all_goals repeat' first
    | exact .pure (by grind)
    | refine .bind fun _ _ _ => ?_
    | split

/-- Only UDP packets for port 68 are kept, and only ICMP packets are answered. -/
theorem ipRcv_returns (ip : state.skb.protocol = 0x0008) : Returns ipRcv state fun fate =>
    (fate = .kept → state.skb.DhcpBound) ∧ (fate = .sent → state.skb.bytes (state.skb.data + 9) = 1) := by
  refine .bind fun | _, _, rfl => .bind fun | _, _, rfl => ?_
  split
  · exact .pure (by simp)
  refine .read ?_
  split
  · exact .pure (by simp)
  next version =>
  refine .bind fun | _, _, rfl => .read ?_
  dsimp only
  split
  next icmp =>
    intro fate after ran
    have notKept := replies_not_kept.2 _ _ ran
    exact ⟨fun kept => absurd kept notKept, fun _ => icmp⟩
  split
  next udp =>
    refine .bind fun | _, _, rfl => ?_
    dsimp only
    split
    · exact .pure (by simp)
    next long =>
    refine .read ?_
    dsimp only
    split
    next port =>
      refine .bind fun _ _ _ => .pure ⟨fun _ => ?_, by simp⟩
      exact ⟨ip, not_lt.mp long, not_not.mp version, udp, port⟩
    · exact .pure (by simp)
  split
  · refine .bind fun _ _ _ => ?_
    split <;> exact .pure (by simp)
  · exact .pure (by simp)

theorem netifRx_returns : Returns netifRx state fun fate =>
    (fate = .kept → state.skb.DhcpBound) ∧ (fate = .sent → state.skb.Answerable) := by
  refine .bind fun | _, _, rfl => .bind fun | _, _, rfl => ?_
  dsimp only
  rw [packetTypeFor_eq]
  by_cases arp : state.skb.protocol = 0x0608
  · rw [if_pos arp]
    exact fun fate after ran => ⟨fun kept => absurd kept (replies_not_kept.1 _ _ ran), fun _ => .inl arp⟩
  rw [if_neg arp]
  by_cases ip : state.skb.protocol = 0x0008
  · rw [if_pos ip]
    exact .imp (ipRcv_returns ip) fun fate => And.imp_right fun icmp sent => .inr ⟨ip, icmp sent⟩
  · rw [if_neg ip]
    exact .pure (by simp)

theorem rx_returns (bound : state.skb.data + state.skb.len ≤ state.skb.tail) :
    Returns rx state fun fate => fate = .kept → state.skb.looped.DhcpBound := by
  refine .bind fun type after ran => .bind fun | _, _, rfl => fun fate final ran' kept => ?_
  obtain ⟨rfl, packetType, same⟩ := (ethTypeTrans_guards bound).post_of_ok ran
  obtain ⟨ip, long, version, udp, port⟩ := (netifRx_returns fate final ran').1 kept
  simp only [same] at ip long version udp port
  exact ⟨ip, long, version, udp, port⟩

variable {buffer : Buffer} {phys : Nat → Nat} {driver : Driver} {fuel : Nat} {path : Path} {held : List Nat}
  {fits faulty : Prop} {send : Own Unit}

theorem full_of_verdict {adapter : Adapter} (represents : adapter.Represents queue) (refused : verdict queue ≠ 0) :
    adapter.Full := by
  have window := represents.1
  have bounded := window.bounded
  have left : (queue.dropWhile Pending.done).length + 1 = numTxDesc := by
    by_contra room
    exact refused (if_neg room)
  cases queue with
  | nil => cases left
  | cons pending rest =>
    have unsent : pending.done = false := by
      by_contra done
      rw [dropWhile_cons_of_pos (by simpa using done)] at left
      have shorter := (dropWhile_suffix Pending.done (l := rest)).length_le
      rw [length_cons] at bounded
      omega
    have desc := window.desc_eq (show 0 < (pending :: rest).length from Nat.succ_pos _)
    rw [dropWhile_cons_of_neg (by simp [unsent])] at left
    refine ⟨?_, ?_⟩
    · have lower := window.start_lt
      rw [window.cur]
      unfold numTxDesc at *
      omega
    · rw [Nat.add_zero, Nat.mod_eq_of_lt window.start_lt] at desc
      rw [desc, getElem_cons_zero, Pending.desc, unsent]
      rfl

def Holds (adapter : Adapter) (freed held : List Nat) : Prop :=
  ∃ queue, adapter.Represents queue ∧ held.Perm (freed ++ queue.map Pending.skb)

/-- The call returns, and the buffer is held, or lost if it does not fit; or the call makes
an access that `faulty` allows. -/
def Settles (buffer : Buffer) (held : List Nat) (fits faulty : Prop) (result : Except Problem (Unit × Path)) : Prop :=
  (∃ after, result = .ok ((), after) ∧ (Holds after.adapter after.freed (buffer.skb :: held) ∨
      ¬fits ∧ Holds after.adapter after.freed held)) ∨
    faulty ∧ ∃ fault, result = .error (.access fault)

theorem Settles.mono {fewer weaker : Prop} (settles : Settles buffer held fits faulty result)
    (implied : fewer → fits) (implies : faulty → weaker) : Settles buffer held fewer weaker result :=
  settles.imp (fun ⟨after, ran, ends⟩ => ⟨after, ran, ends.imp_right (And.imp_left (mt implied))⟩)
    fun stopped => ⟨implies stopped.1, stopped.2⟩

theorem Buffer.touch_run {α : Type} (action : Rx α) (live : buffer.skb ∉ path.freed) :
    (buffer.touch action).run path =
      match action.run path.rx with
      | .ok (value, rx) => .ok (value, { path with rx })
      | .error fault => .error (.access fault) :=
  if_neg live

/-- The memory behind the packet can be read as far as `dhcp_input` goes. -/
def SkBuff.Readable (skb : SkBuff) : Prop := skb.data + skb.len + 577 ≤ skb.tail

theorem SkBuff.Readable.ipWithin (readable : skb.Readable) : IpWithin skb := by
  rw [SkBuff.Readable] at readable
  refine fun _ _ => ⟨fun _ => by omega, fun _ _ _ => ⟨by omega, fun _ _ => ?_⟩⟩
  exact optionsWithin_of_available (show 308 < _ by omega)

/-- Of a packet that is sent again with a whole header, only the memory can be at fault. -/
theorem not_readable_of_resent {skb later : SkBuff} (reads : skb.Readable → later.Readable) (long : 14 ≤ later.len)
    (faulty : ¬later.Readable ∨ driver = Driver.loopback ∧ later.len < 14) : ¬skb.Readable := by
  rcases faulty with unreadable | ⟨-, short⟩
  · exact mt reads unreadable
  · omega

section Fresh

variable (holds : Holds path.adapter path.freed held) (fresh : buffer.skb ∉ held)

include holds fresh

theorem Holds.not_freed : buffer.skb ∉ path.freed := by
  obtain ⟨queue, -, same⟩ := holds
  exact fun freed => fresh (same.mem_iff.mpr (mem_append_left _ freed))

theorem conclude_freed : Settles buffer held fits faulty ((buffer.conclude send .freed).run path) := by
  refine .inl ⟨{ path with freed := path.freed ++ [buffer.skb] }, ?_, .inl ?_⟩
  · rw [Buffer.conclude, Buffer.kfreeSkb, StateT.run_bind, Buffer.touch_run _ (holds.not_freed fresh)]
    rfl
  · obtain ⟨queue, represents, same⟩ := holds
    refine ⟨queue, represents, ?_⟩
    rw [append_assoc]
    exact (same.cons _).trans perm_middle.symm

theorem e1000Xmit_settles : Settles buffer held (¬path.adapter.Full) faulty ((buffer.e1000Xmit phys).run path) := by
  have live := holds.not_freed fresh
  obtain ⟨queue, represents, same⟩ := holds
  obtain ⟨next, returned, -⟩ := represents.startXmit phys
    { skb := buffer.skb, data := buffer.base + path.rx.skb.data, len := path.rx.skb.len }
  obtain ⟨later, kept, moved⟩ := represents.step (show TxStep phys path.adapter (.xmit _ _ _) next from returned)
  have unfreed : buffer.skb ∉ path.freed ++ (queue.takeWhile Pending.done).map Pending.skb := by
    intro member
    rcases mem_append.mp member with freed | cleaned
    · exact live freed
    · have inQueue := (takeWhile_sublist Pending.done).map Pending.skb |>.subset cleaned
      exact fresh (same.mem_iff.mpr (mem_append_right _ inQueue))
  have run : (buffer.e1000Xmit phys).run path =
      (if verdict queue = 0 then buffer.touch (return ()) else return () : Own Unit).run
        { path with
          adapter := next
          freed := path.freed ++ (queue.takeWhile Pending.done).map Pending.skb } := by
    rw [Buffer.e1000Xmit, StateT.run_bind, StateT.run_get]
    simp only [pure_bind, returned]
    rfl
  rw [run]
  by_cases accepted : verdict queue = 0
  · rw [if_pos accepted, Buffer.touch_run _ unfreed]
    refine .inl ⟨_, rfl, .inl ⟨later, kept, ?_⟩⟩
    simp only [TxEvent.freed, accepted] at moved
    rw [append_assoc, ← moved, ← append_assoc]
    exact (same.cons _).trans (perm_append_singleton _ _).symm
  · rw [if_neg accepted]
    refine .inl ⟨_, rfl, .inr ⟨not_not.mpr (full_of_verdict represents accepted), later, kept, ?_⟩⟩
    simp only [TxEvent.accepted, TxEvent.freed, accepted, if_false, append_nil] at moved
    rw [append_assoc, ← moved]
    exact same

theorem touch_settles {action : Rx Fate} {inside : Prop} {post : Fate → RxState → Prop}
    (guards : Guards action path.rx inside post) (outside : ¬inside → faulty)
    (kept : ∀ rx, action.run path.rx = .ok (.kept, rx) → ¬fits)
    (sent : ∀ rx, action.run path.rx = .ok (.sent, rx) → post .sent rx →
      Settles buffer held fits faulty (send.run { path with rx })) :
    Settles buffer held fits faulty ((do buffer.conclude send (← buffer.touch action)).run path) := by
  have live := holds.not_freed fresh
  by_cases isInside : inside
  · obtain ⟨fate, rx, ran, ended⟩ := guards.succeeds isInside
    have run : (do buffer.conclude send (← buffer.touch action)).run path =
        (buffer.conclude send fate).run { path with rx } := by
      rw [StateT.run_bind, Buffer.touch_run action live, ran]
      rfl
    rw [run]
    cases fate with
    | freed => exact @conclude_freed _ { path with rx } _ _ _ _ holds fresh
    | kept => exact .inl ⟨{ path with rx }, rfl, .inr ⟨kept rx ran, holds⟩⟩
    | sent => exact sent rx ran ended
  · obtain ⟨fault, ran⟩ := guards.faults isInside
    refine .inr ⟨outside isInside, fault, ?_⟩
    rw [StateT.run_bind, Buffer.touch_run action live, ran]
    rfl

/-- The loop over `loopback_xmit` and `netif_rx` takes the header of a packet at each
turn, and only a packet that is longer is sent again. -/
theorem startXmit_settles (bound : path.rx.skb.data + path.rx.skb.len ≤ path.rx.skb.tail)
    (enough : path.rx.skb.len < fuel) :
    Settles buffer held (Passes path.adapter path.rx driver)
      (¬path.rx.skb.Readable ∨ driver = .loopback ∧ path.rx.skb.len < 14)
      ((buffer.startXmit phys driver fuel).run path) := by
  induction fuel generalizing path with
  | zero => omega
  | succ fuel ih =>
    cases driver with
    | e1000 => exact e1000Xmit_settles holds fresh
    | loopback =>
      refine touch_settles holds fresh (rx_guards bound) (fun outside => ?_)
        (fun rx ran loops => loops _ .refl (rx_returns bound _ rx ran rfl)) fun rx ran ⟨extent, long⟩ => ?_
      · by_cases short : path.rx.skb.len < 14
        · exact .inr ⟨rfl, short⟩
        · refine .inl fun readable => outside ⟨by omega, fun _ => SkBuff.Readable.ipWithin ?_⟩
          simp only [SkBuff.Readable, SkBuff.pulled] at readable ⊢
          omega
      · have long := long rfl
        simp only [SkBuff.extent, SkBuff.pulled, Prod.mk.injEq] at extent long
        have bound : rx.skb.data + rx.skb.len ≤ rx.skb.tail := by omega
        refine (@ih { path with rx } holds bound (show rx.skb.len < fuel by omega)).mono
          (fun loops later way => loops later (.head ran way))
          fun faulty => .inl (not_readable_of_resent (fun readable => ?_) (show 14 ≤ rx.skb.len by omega) faulty)
        simp only [SkBuff.Readable] at readable ⊢
        omega

/-- Every way of a buffer that was given. -/
theorem give_settles (entry : Entry) (bound : path.rx.skb.data + path.rx.skb.len ≤ path.rx.skb.tail)
    (enough : path.rx.skb.len < fuel) : Settles buffer held (Fits path.adapter path.rx driver entry)
      (¬path.rx.skb.Readable ∨ entry ≠ .netifRx ∧ driver = .loopback ∧ path.rx.skb.len < 14)
      ((give buffer phys driver fuel entry).run path) := by
  cases entry with
  | netifRx =>
    refine touch_settles holds fresh (netifRx_guards bound) (fun outside => ?_)
      (fun rx ran fits => fits.1 ((netifRx_returns _ rx ran).1 rfl)) ?_
    · exact .inl fun readable => outside fun _ => readable.ipWithin
    · rintro rx ran ⟨extent, long⟩
      have long := long rfl
      simp only [SkBuff.extent, Prod.mk.injEq] at extent
      have bound : rx.skb.data + rx.skb.len ≤ rx.skb.tail := by omega
      have enough : rx.skb.len < fuel := by omega
      refine (@startXmit_settles _ phys driver _ { path with rx } _ holds fresh bound enough).mono
        (fun fits => ?_)
        fun faulty => .inl (not_readable_of_resent (fun readable => ?_) (show 14 ≤ rx.skb.len by omega) faulty)
      · cases driver with
        | e1000 => exact fits.2 ((netifRx_returns _ rx ran).2 rfl)
        | loopback => exact fits.2 rx ran
      · simp only [SkBuff.Readable] at readable ⊢
        omega
  | devQueueXmit hasDevice =>
    cases hasDevice with
    | false => exact @conclude_freed _ _ _ _ _ (buffer.startXmit phys driver fuel) holds fresh
    | true =>
      have guards : Guards (devQueueXmit (return .sent)) path.rx True fun fate after =>
          after = path.rx ∧ (fate ≠ .freed → fate = .sent ∧ path.rx.dev.startXmit = true) := by
        refine (Guards.get).bind_true ?_
        rintro _ _ ⟨rfl, rfl⟩
        split
        next set => exact .pure ⟨rfl, fun _ => ⟨rfl, set⟩⟩
        · exact .pure ⟨rfl, by simp⟩
      refine touch_settles holds fresh guards (fun never => absurd trivial never) (fun rx ran => ?_) ?_
      · cases ((guards.post_of_ok ran).2 (by simp)).1
      rintro _ - ⟨rfl, started⟩
      refine (startXmit_settles holds fresh bound enough).mono (fun fits => fits rfl (started (by simp)).2) ?_
      rintro (unreadable | ⟨isLoopback, short⟩)
      · exact .inl unreadable
      · exact .inr ⟨by simp, isLoopback, short⟩

end Fresh

structure World where
  adapter : Adapter
  freed : List Nat

def World.boot : World := { adapter := setupTx, freed := [] }

/-- The slots of `tx_skbs`. -/
def World.slots (world : World) : List (Option Nat) := (List.range numTxDesc).map world.adapter.txSkbs

/-- A call that returns, and whether it is known to fit, or a completion. -/
inductive NetEvent where
  | give (skb : Nat) (fits : Bool)
  | complete (index : Nat)
deriving DecidableEq

/-- A buffer that is given has its data in front of its tail. -/
def NetStep (phys : Nat → Nat) (before : World) : NetEvent → World → Prop
  | .give skb fits, after =>
    ∃ base driver fuel entry rx, ∃ path : Path,
      rx.skb.data + rx.skb.len ≤ rx.skb.tail ∧ rx.skb.len < fuel ∧
      (fits = true → Fits before.adapter rx driver entry) ∧
      (give { skb, base } phys driver fuel entry).run
        { rx, adapter := before.adapter, freed := before.freed } = .ok ((), path) ∧
      after = { adapter := path.adapter, freed := path.freed }
  | .complete index, after =>
    TxStep phys before.adapter (.complete index) after.adapter ∧ after.freed = before.freed

def NetEvent.given : NetEvent → List Nat
  | .give skb _ => [skb]
  | .complete _ => []

variable {trace : List NetEvent} {world : World}

/-- What a step adds to the buffers that are held. -/
theorem Holds.step {after : World} (holds : Holds before.adapter before.freed held)
    (fresh : ∀ skb ∈ event.given, skb ∉ held) (step : NetStep phys before event after) :
    ∃ added, Holds after.adapter after.freed (added ++ held) ∧ added.Sublist event.given ∧
      ∀ skb, event = .give skb true → skb ∈ added := by
  cases event with
  | give skb fits =>
    obtain ⟨base, driver, fuel, entry, rx, path, bound, enough, isFit, ran, rfl⟩ := step
    have settled := @give_settles { skb, base } phys driver fuel
      { rx, adapter := before.adapter, freed := before.freed }
      held holds (fresh skb (.head _)) entry bound enough
    rcases settled with ⟨final, again, kept | ⟨unfit, lost⟩⟩ | ⟨-, fault, failed⟩
    · cases ran.symm.trans again
      refine ⟨[skb], kept, .refl _, ?_⟩
      rintro _ ⟨⟩
      exact .head _
    · cases ran.symm.trans again
      refine ⟨[], lost, nil_sublist _, ?_⟩
      rintro _ ⟨⟩
      exact absurd (isFit rfl) unfit
    · cases ran.symm.trans failed
  | complete index =>
    obtain ⟨queue, represents, same⟩ := holds
    obtain ⟨later, kept, moved⟩ := represents.step step.1
    refine ⟨[], ⟨later, kept, ?_⟩, nil_sublist _, by simp⟩
    have unmoved : queue.map Pending.skb = later.map Pending.skb := by
      simpa only [TxEvent.accepted, TxEvent.freed, append_nil, nil_append] using moved
    rw [step.2, nil_append, ← unmoved]
    exact same

section

variable (run : Run (NetStep phys) .boot trace world) (distinct : (trace.flatMap NetEvent.given).Nodup)
include run distinct

end

def given (frame : List UInt8) (protocol : Nat) : RxState :=
  { skb := { (SkBuff.received frame).pulled with protocol }, dev := idleDevice }

end Rucix.Net
