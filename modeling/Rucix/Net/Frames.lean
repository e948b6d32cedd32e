import Rucix.Net.Receive
import Rucix.Net.Send

namespace Rucix.Net

open Rucix.Data

/-! The frames that are handed to a driver. -/

def SkBuff.slice (skb : SkBuff) (offset count : Nat) : List UInt8 :=
  (List.range count).map fun index => skb.bytes (skb.data + (offset + index))

/-- What a driver sends. -/
def SkBuff.frame (skb : SkBuff) : List UInt8 := skb.slice 0 skb.len

inductive Origin where
  | udp (memory : Block) (destIp : UInt32) (srcPort destPort : UInt16) (payload : List UInt8)
  | received (frame : SkBuff)

def Origin.isUdp : Origin → Bool
  | .udp .. => true
  | .received _ => false

/-- `start_xmit` of the device is called with the buffer. -/
def Hands (dev : NetDevice) : Origin → SkBuff → Prop
  | .udp memory destIp srcPort destPort payload, skb =>
    payload.length < 2 ^ 32 ∧ dev.startXmit = true ∧ ∃ built,
      udpSendPacket (some memory) (some dev) destIp srcPort destPort payload = .ok (some (.sent, built)) ∧
        skb = built.handed
  | .received frame, skb =>
    frame.data + frame.len ≤ frame.tail ∧ ∃ state,
      rx.run { skb := frame, dev } = .ok (.sent, state) ∧ skb = state.skb

/-- The data begins with an Ethernet header.  In a reply it is the one of the frame
that was received, but for the addresses, and goes to where that frame came from. -/
def Framed (dev : NetDevice) : Origin → SkBuff → Prop
  | .udp .., skb =>
    ∃ packet, skb.frame = List.replicate 6 0xFF ++ (dev.devAddr.toList ++ ([8, 0] ++ packet))
  | .received frame, skb =>
    ∃ source reply, source.length = 6 ∧ reply.length + 14 = frame.len ∧
      skb.frame = frame.slice 6 6 ++ (source ++ (frame.slice 12 2 ++ reply))

theorem SkBuff.slice_add (skb : SkBuff) :
    skb.slice offset (first + second) = skb.slice offset first ++ skb.slice (offset + first) second := by
  simp only [SkBuff.slice, List.range_add, List.map_append, List.map_map, Function.comp_def, Nat.add_assoc]

theorem SkBuff.slice_length (skb : SkBuff) : (skb.slice offset count).length = count := by
  rw [SkBuff.slice, List.length_map, List.length_range]

/-- A length that does not fit into 32 bits with the headers gives a null pointer. -/
theorem udpSendPacket_faults (memory : Block) (srcPort : UInt16)
    (long : 2 ^ 32 ≤ payload.length + 74) (bound : payload.length < 2 ^ 32) :
    udpSendPacket (some memory) (some dev) destIp srcPort destPort payload = .error .null := by
  obtain ⟨size, isSize, outside⟩ : ∃ size : Nat, wrap 32 (payload.length + 8 + 20 + 14 + 32) = size ∧
      (size : Int) < 42 + payload.length := by
    refine ⟨payload.length + 74 - 2 ^ 32, ?_, by omega⟩
    rw [wrap]
    omega
  have used : payload ≠ [] := by
    rintro rfl
    exact absurd long (by decide)
  simp [udpSendPacket, udpFill, allocSkb, skbReserve, skbPut, relayout, store, iphdrSize, ethhdrSize, udphdrSize,
    isSize, outside, used]
  rfl

theorem Hands.udp_framed (hands : Hands dev (.udp memory destIp srcPort destPort payload) skb) :
    ∃ packet, skb.frame = List.replicate 6 0xFF ++ (dev.devAddr.toList ++ ([8, 0] ++ packet)) := by
  obtain ⟨bound, -, built, sent, rfl⟩ := hands
  by_cases fits : payload.length + 74 < 2 ^ 32
  · obtain ⟨other, again, isFrame, layout, -⟩ := udpSendPacket_eq memory srcPort fits
    cases again.symm.trans sent
    have len : built.handed.len = 6 + (6 + (2 + (payload.length + 28))) := by
      rw [TxBuff.handed, layout]
      dsimp only
      omega
    have data : built.layout.data.toNat = 0 := by rw [layout]; rfl
    refine ⟨built.handed.slice 14 (payload.length + 28), ?_⟩
    rw [SkBuff.frame, len, SkBuff.slice_add, SkBuff.slice_add, SkBuff.slice_add]
    obtain ⟨a, b, c, d, e, f, address⟩ := exists_bytes dev.devAddr
    rw [ethStores, address] at isFrame
    rw [address]
    simp only [TxBuff.handed, data, isFrame]
    rfl
  · rw [udpSendPacket_faults memory srcPort (by omega) bound] at sent
    cases sent

theorem Hands.received_len (hands : Hands dev (.received frame) skb) :
    skb.data = frame.data + 14 ∧ skb.len + 14 = frame.len := by
  obtain ⟨bound, state, ran, rfl⟩ := hands
  have guards := @rx_guards { skb := frame, dev } bound
  obtain ⟨header, -⟩ := guards.ok_iff.mp ⟨_, ran⟩
  have extent := (guards.post_of_ok ran).1
  simp only [SkBuff.extent, SkBuff.pulled, Prod.mk.injEq] at extent
  have header : 14 ≤ frame.len := header
  omega

theorem Hands.received_not_framed (hands : Hands dev (.received frame) skb) : ¬Framed dev (.received frame) skb := by
  rintro ⟨source, reply, isSource, isReply, same⟩
  have length := congrArg List.length same
  simp only [SkBuff.frame, List.length_append, SkBuff.slice_length] at length
  have shorter := hands.received_len.2
  omega

theorem ethTypeTrans_type (address : Vector UInt8 6) : ∃ after, ethTypeTrans.run
      { skb := .received (List.replicate 6 0xFF ++ (address.toList ++ ([8, 0] ++ packet))), dev := peer } =
        .ok (0x0008, after) := by
  obtain ⟨a, b, c, d, e, f, isAddress⟩ := exists_bytes address
  rw [isAddress]
  obtain ⟨type, after, ran, isType, -⟩ := (@ethTypeTrans_guards
    { skb := .received (List.replicate 6 0xFF ++ ([a, b, c, d, e, f] ++ ([8, 0] ++ packet))), dev := peer }
      (Nat.le_of_eq (Nat.zero_add _))).succeeds (Nat.le_add_left 14 packet.length)
  cases isType
  exact ⟨after, ran⟩

/-- Every buffer from `udp_send_packet` has an Ethernet header at its data, and the
peer finds the protocol there.  No reply has one. -/
theorem xmit_framed_iff (hands : Hands dev origin skb) :
    (Framed dev origin skb ↔ origin.isUdp = true) ∧
      (origin.isUdp = true → ∀ peer, ∃ after,
        ethTypeTrans.run { skb := .received skb.frame, dev := peer } = .ok (0x0008, after)) := by
  cases origin with
  | udp memory destIp srcPort destPort payload =>
    obtain ⟨packet, framed⟩ := hands.udp_framed
    refine ⟨iff_of_true ⟨packet, framed⟩ rfl, fun _ peer => ?_⟩
    rw [framed]
    exact ethTypeTrans_type dev.devAddr
  | received frame =>
    exact ⟨iff_of_false hands.received_not_framed Bool.false_ne_true, nofun⟩

theorem xmit_framed_iff_payload :
    ∃ skb, Hands loopbackDevice (.udp Block.zero 0 5000 6000 [1, 2, 3]) skb ∧
      Framed loopbackDevice (.udp Block.zero 0 5000 6000 [1, 2, 3]) skb := by
  obtain ⟨built, sent, -⟩ := udpSendPacket_eq Block.zero 5000 (show [(1 : UInt8), 2, 3].length + 74 < _ by decide)
  have hands : Hands loopbackDevice (.udp Block.zero 0 5000 6000 [1, 2, 3]) built.handed :=
    ⟨by decide, rfl, built, sent, rfl⟩
  exact ⟨_, hands, (xmit_framed_iff hands).1.mpr rfl⟩

def arpRequest : List UInt8 :=
  List.replicate 6 0xFF ++ [1, 2, 3, 4, 5, 6, 8, 6, 0, 1, 8, 0, 6, 4, 0, 1, 1, 2, 3, 4, 5, 6, 10, 0, 0, 1] ++
    List.replicate 10 0

def sentFrame : Except Fault (Fate × RxState) → Option (List UInt8)
  | .ok (.sent, state) => some state.skb.frame
  | _ => none

/-- The reply begins with the ARP packet. -/
theorem arp_reply_unframed : ∃ skb, Hands idleDevice (.received (.received arpRequest)) skb ∧
      skb.frame = [0, 1, 8, 0, 6, 4, 0, 2, 2, 2, 2, 2, 2, 2, 0, 0, 0, 0, 1, 2, 3, 4, 5, 6, 10, 0, 0, 1] ∧
      ¬Framed idleDevice (.received (.received arpRequest)) skb := by
  have sent : sentFrame (receive arpRequest idleDevice) =
      some [0, 1, 8, 0, 6, 4, 0, 2, 2, 2, 2, 2, 2, 2, 0, 0, 0, 0, 1, 2, 3, 4, 5, 6, 10, 0, 0, 1] := by
    decide +kernel
  match ran : receive arpRequest idleDevice, sent with
  | .ok (.sent, state), sent =>
    have hands : Hands idleDevice (.received (.received arpRequest)) state.skb := ⟨by decide, state, ran, rfl⟩
    exact ⟨state.skb, hands, Option.some.inj sent, hands.received_not_framed⟩

end Rucix.Net
