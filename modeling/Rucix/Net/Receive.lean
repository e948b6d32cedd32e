import Rucix.Net.Dhcp

namespace Rucix.Net

open Rucix.Data Guards

/-! Which frames are received without a read outside of them. -/

variable {state : RxState}

/-- A DHCP packet has its fixed part, and its options end inside. -/
def DhcpWithin (skb : SkBuff) (packet : Nat) : Prop :=
  packet + 240 ≤ skb.tail ∧
    (swap32 (skb.bytes.get32 (packet + 236)) = 0x63825363 → skb.bytes packet = 2 →
      OptionsWithin (fun index => skb.bytes (packet + 240 + index)) (skb.tail - (packet + 240)) 0)

def UdpWithin (skb : SkBuff) : Prop :=
  28 ≤ skb.len → swap16 (skb.bytes.get16 (skb.data + 22)) = 68 → DhcpWithin skb (skb.data + 28)

/-- There is a byte behind the IP header of an ICMP packet. -/
def IpWithin (skb : SkBuff) : Prop :=
  20 ≤ skb.len → skb.bytes skb.data / 16 = 4 →
    (skb.bytes (skb.data + 9) = 1 → skb.data + 21 ≤ skb.tail) ∧
      (skb.bytes (skb.data + 9) = 17 → UdpWithin skb)

theorem readField_then {α β : Type} {offset count : Nat} {value : Block → α} {next : α → Rx β} {more : Prop}
    {final : β → RxState → Prop} (inside : offset + count ≤ state.skb.tail)
    (rest : Guards (next (value state.skb.bytes)) state more final) :
    Guards (readField offset count value >>= next) state more final :=
  ((readField_guards offset value state).bind_value fun _ => rest).congr (and_iff_right inside)

theorem dhcpInput_guards :
    Guards dhcpInput state (DhcpWithin state.skb (state.skb.data + 28)) fun _ after =>
      after.skb = state.skb := by
  refine (get).bind_true fun | _, _, ⟨rfl, rfl⟩ => ?_
  refine (readField_guards _ _ state).bind_value fun inside => ?_
  refine .congr (imp_congr_left not_not) (.otherwise (fun _ => .pure rfl) fun _ => ?_)
  refine readField_then (show state.skb.data + 28 + 1 ≤ _ by omega) ?_
  refine .congr (imp_congr_left not_not) (.otherwise (fun _ => .pure rfl) fun _ => ?_)
  have options := dhcpOptions_guards (state.skb.data + 28 + 240) (Nat.le_add_left optionsSize 0)
    { msgType := 0, mask := 0, gw := 0, dns := 0 } state inside
  refine (options.bind_same fun _ lease => ?_).congr (and_iff_left trivial)
  split
  · exact readField_then (show state.skb.data + 28 + 16 + 4 ≤ _ by omega)
      ((modify _).mono fun | _, _, rfl => rfl)
  · exact .pure rfl

/-- The buffer behind the Ethernet header. -/
structure Stripped (frame : List UInt8) (skb : SkBuff) : Prop where
  bytes : skb.bytes = frameBytes frame
  data : skb.data = 14
  tail : skb.tail = frame.length
  len : skb.len = frame.length - 14

def SkBuff.pulled (skb : SkBuff) : SkBuff := { skb with data := skb.data + 14, len := skb.len - 14 }

theorem skbPull_guards : Guards (skbPull len) state True fun result after =>
      state.skb.len < len ∧ result = none ∨
        len ≤ state.skb.len ∧ result = some state.skb.data ∧
          after = { state with
            skb := { state.skb with data := state.skb.data + len, len := state.skb.len - len } } := by
  refine (get).bind_true fun | _, _, ⟨rfl, rfl⟩ => ?_
  dsimp only
  split
  · next short => exact .pure (.inl ⟨short, rfl⟩)
  · next long =>
    refine (modify _).bind_true fun | _, _, rfl => ?_
    exact .pure (.inr ⟨not_lt.mp long, rfl, rfl⟩)

theorem packetTypeFor_eq : packetTypeFor protocol =
      if protocol = 0x0608 then some .arp else if protocol = 0x0008 then some .ip else none := by
  split
  · next arp => rw [arp]; rfl
  · next notArp =>
    split
    · next ip => rw [ip]; rfl
    · next notIp => simp [packetTypeFor, ptypeBase, PacketType.type, Ne.symm notArp, Ne.symm notIp]

theorem netifRx_short (short : state.skb.len < 20) : Guards netifRx state True fun fate _ => fate = .freed := by
  refine (get).bind_true fun | _, _, ⟨rfl, rfl⟩ => ?_
  refine (modify _).bind_true fun | _, _, rfl => ?_
  rcases packetTypeFor state.skb.protocol with _ | _ | _
  · exact .pure rfl
  · refine (get).bind_true fun | _, _, ⟨rfl, rfl⟩ => (get).bind_true fun | _, _, ⟨rfl, rfl⟩ => ?_
    rw [if_pos (show state.skb.len < etharpSize from Nat.lt_trans short (by decide))]
    exact .pure rfl
  · refine (get).bind_true fun | _, _, ⟨rfl, rfl⟩ => (get).bind_true fun | _, _, ⟨rfl, rfl⟩ => ?_
    rw [if_pos (show state.skb.len < iphdrSize from short)]
    exact .pure rfl

section

variable (bound : state.skb.data + state.skb.len ≤ state.skb.tail)
include bound

theorem udpRcv_guards : Guards udpRcv state (UdpWithin state.skb) fun _ after =>
      after.skb.extent = state.skb.extent := by
  refine (get).bind_true fun | _, _, ⟨rfl, rfl⟩ => ?_
  refine .congr (imp_congr_left not_lt) (.otherwise (fun _ => .pure rfl) fun long => ?_)
  have long : ¬state.skb.len < 28 := long
  refine readField_then (show state.skb.data + 20 + 2 + 2 ≤ _ by omega) ?_
  refine .when (fun _ => ?_) fun _ => .pure rfl
  exact (dhcpInput_guards).bind_of fun _ _ _ same =>
    .pure (congrArg SkBuff.extent same)

theorem icmpRcv_guards (header : state.skb.networkHeader = state.skb.data) :
    Guards icmpRcv state (state.skb.data + 21 ≤ state.skb.tail) fun _ after =>
      after.skb.extent = state.skb.extent := by
  refine (get).bind_true fun | _, _, ⟨rfl, rfl⟩ => ?_
  refine ((readField_guards (state.skb.data + 20) _ state).bind_value fun inside => ?_).congr
    (and_iff_left trivial)
  split
  · have inside : state.skb.networkHeader + 20 ≤ state.skb.tail := by omega
    have payload : state.skb.data + 20 + (state.skb.len - 20) ≤ state.skb.tail := by omega
    exact Kept.guards (icmpReply_safe inside payload)
  · exact .pure rfl

theorem ipRcv_guards : Guards ipRcv state (IpWithin state.skb) fun _ after =>
      after.skb.extent = state.skb.extent := by
  refine (get).bind_true fun | _, _, ⟨rfl, rfl⟩ => ?_
  refine (get).bind_true fun | _, _, ⟨rfl, rfl⟩ => ?_
  refine .congr (imp_congr_left not_lt) (.otherwise (fun _ => .pure rfl) fun long => ?_)
  have long : ¬state.skb.len < 20 := long
  refine readField_then (show state.skb.data + 1 ≤ _ by omega) ?_
  refine .congr (imp_congr_left not_not) (.otherwise (fun _ => .pure rfl) fun _ => ?_)
  refine (modify _).bind_true fun | _, _, rfl => ?_
  refine readField_then (show state.skb.data + 9 + 1 ≤ state.skb.tail by omega) ?_
  by_cases icmp : state.skb.bytes (state.skb.data + 9) = 1
  · rw [if_pos icmp]
    have notUdp : state.skb.bytes (state.skb.data + 9) ≠ 17 := fun udp =>
      absurd (icmp.symm.trans udp) (by decide)
    have guards := @icmpRcv_guards { state with skb := { state.skb with networkHeader := state.skb.data } }
      bound rfl
    exact guards.congr ⟨fun inside => ⟨fun _ => inside, fun udp => absurd udp notUdp⟩, fun both => both.1 icmp⟩
  · rw [if_neg icmp]
    refine .congr (and_iff_right fun same => absurd same icmp).symm ?_
    refine .when (fun _ => udpRcv_guards bound) fun _ => ?_
    split
    · exact Kept.guards tcpRcv_safe
    · exact .pure rfl

/-- Without a whole header the pointer is null. -/
theorem ethTypeTrans_guards :
    Guards ethTypeTrans state (14 ≤ state.skb.len) fun type after =>
      type = state.skb.bytes.get16 (state.skb.data + 12) ∧
        ∃ packetType, after.skb = { state.skb.pulled with packetType } := by
  refine (skbPull_guards).bind_true fun result after pulled => ?_
  rcases pulled with ⟨short, rfl⟩ | ⟨long, rfl, rfl⟩
  · have short : state.skb.len < 14 := short
    exact .congr (iff_of_false id (by omega)) (.fault Fault.null)
  · have long : 14 ≤ state.skb.len := long
    refine .congr (iff_of_true trivial long) ?_
    refine readField_then (show state.skb.data + 1 ≤ state.skb.tail by omega) ?_
    refine readField_then (show state.skb.data + 6 ≤ state.skb.tail by omega) ?_
    refine (get).bind_true fun | _, _, ⟨rfl, rfl⟩ => ?_
    refine (modify _).bind_true fun | _, _, rfl => ?_
    refine ((readField_guards _ _ _).congr (iff_true_intro ?_)).mono ?_
    · exact show state.skb.data + 12 + 2 ≤ state.skb.tail by omega
    · rintro _ _ ⟨rfl, rfl⟩
      exact ⟨rfl, _, rfl⟩

theorem netifRx_keeps :
    Guards netifRx state (state.skb.protocol = 0x0008 → IpWithin state.skb) fun _ after =>
      after.skb.extent = state.skb.extent := by
  refine (get).bind_true fun | _, _, ⟨rfl, rfl⟩ => ?_
  refine (modify _).bind_true fun | _, _, rfl => ?_
  rw [packetTypeFor_eq]
  by_cases arp : state.skb.protocol = 0x0608
  · rw [if_pos arp]
    refine .congr (iff_of_true trivial fun ip => absurd (arp.symm.trans ip) (by decide)) ?_
    exact Kept.guards (arpRcv_safe bound)
  · rw [if_neg arp]
    by_cases ip : state.skb.protocol = 0x0008
    · rw [if_pos ip]
      exact .congr (forall_prop_of_true ip).symm (ipRcv_guards bound)
    · rw [if_neg ip]
      exact .congr (iff_of_true trivial fun same => absurd same ip) (.pure rfl)

/-- A reply is only made to a packet with a whole IP header. -/
theorem netifRx_guards :
    Guards netifRx state (state.skb.protocol = 0x0008 → IpWithin state.skb) fun fate after =>
      after.skb.extent = state.skb.extent ∧ (fate = .sent → 20 ≤ state.skb.len) := by
  refine ⟨fun within => ?_, (netifRx_keeps bound).faults⟩
  obtain ⟨fate, after, ran, same⟩ := (netifRx_keeps bound).succeeds within
  refine ⟨fate, after, ran, same, fun sent => Nat.le_of_not_lt fun short => ?_⟩
  have freed := (netifRx_short short).post_of_ok ran
  cases freed.symm.trans sent

/-- Everything that is received goes through `eth_type_trans` and `netif_rx`. -/
theorem rx_guards :
    Guards rx state (14 ≤ state.skb.len ∧
      (state.skb.bytes.get16 (state.skb.data + 12) = 0x0008 → IpWithin state.skb.pulled)) fun fate after =>
        after.skb.extent = state.skb.pulled.extent ∧ (fate = .sent → 20 ≤ state.skb.pulled.len) := by
  refine (ethTypeTrans_guards bound).bind fun header type after ⟨isType, packetType, pulled⟩ => ?_
  refine (modify _).bind_true fun | _, _, rfl => ?_
  rw [isType, pulled]
  exact netifRx_guards (show state.skb.data + 14 + (state.skb.len - 14) ≤ state.skb.tail by omega)

end

structure IpFrame (frame : List UInt8) : Prop where
  type : (frameBytes frame).get16 12 = 0x0008
  long : 34 ≤ frame.length
  version : frameBytes frame 14 / 16 = 4

structure DhcpFrame (frame : List UInt8) : Prop extends IpFrame frame where
  protocol : frameBytes frame 23 = 17
  header : 42 ≤ frame.length
  port : swap16 ((frameBytes frame).get16 36) = 68

structure ReadsWithin (frame : List UInt8) : Prop where
  header : 14 ≤ frame.length
  /-- An ICMP packet has a byte behind its IP header. -/
  icmp : IpFrame frame → frameBytes frame 23 = 1 → 35 ≤ frame.length
  /-- A DHCP packet has everything in front of its options. -/
  fixed : DhcpFrame frame → 282 ≤ frame.length
  /-- The options of a reply with the right cookie end inside the frame. -/
  options : DhcpFrame frame → swap32 ((frameBytes frame).get32 278) = 0x63825363 →
    frameBytes frame 42 = 2 →
      OptionsWithin (fun index => frameBytes frame (282 + index)) (frame.length - 282) 0

theorem Stripped.readsWithin_iff (stripped : Stripped frame skb) (header : 14 ≤ frame.length) :
    ((frameBytes frame).get16 12 = 0x0008 → IpWithin skb) ↔ ReadsWithin frame := by
  obtain ⟨bytes, data, tail, len⟩ := stripped
  simp only [IpWithin, UdpWithin, DhcpWithin, bytes, data, tail]
  constructor
  · intro within
    refine ⟨header, fun ip icmp => ?_, fun dhcp => ?_, fun dhcp cookie reply => ?_⟩
    · exact (within ip.type (by have := ip.long; omega) ip.version).1 icmp
    · exact ((within dhcp.type (by have := dhcp.long; omega) dhcp.version).2 dhcp.protocol
        (by have := dhcp.header; omega) dhcp.port).1
    · exact ((within dhcp.type (by have := dhcp.long; omega) dhcp.version).2 dhcp.protocol
        (by have := dhcp.header; omega) dhcp.port).2 cookie reply
  · intro reads type long version
    have ip : IpFrame frame := ⟨type, by omega, version⟩
    refine ⟨reads.icmp ip, fun protocol header port => ?_⟩
    have dhcp : DhcpFrame frame := ⟨ip, protocol, by omega, port⟩
    exact ⟨reads.fixed dhcp, reads.options dhcp⟩

/-- A frame is received without a fault exactly if the layers find what they read
inside of it. -/
theorem receive_reads_within_iff (frame : List UInt8) (dev : NetDevice) :
    (∃ result, receive frame dev = .ok result) ↔ ReadsWithin frame :=
  have header : (14 ≤ frame.length ∧ ((frameBytes frame).get16 12 = 0x0008 → IpWithin (SkBuff.received frame).pulled)) ↔
      ReadsWithin frame := by
    refine .trans (and_congr_right fun header => ?_) (and_iff_right_of_imp ReadsWithin.header)
    exact Stripped.readsWithin_iff ⟨rfl, rfl, rfl, rfl⟩ header
  (rx_guards (Nat.le_of_eq (Nat.zero_add _))).ok_iff.trans header

def idleDevice : NetDevice :=
  { devAddr := Vector.replicate 6 2, broadcast := Vector.replicate 6 255, ipAddr := 0, netmask := 0,
    gateway := 0, dns := 0, startXmit := true, rxPackets := 0, rxBytes := 0 }

def ipPacket (protocol : UInt8) (payload : List UInt8) : List UInt8 :=
  List.replicate 12 0 ++ [8, 0, 0x45, 0, 0, 0, 0, 0, 0, 0, 0, protocol] ++ List.replicate 10 0 ++ payload

theorem receive_reads_within_iff_echo :
    IpFrame (ipPacket 1 [8, 0, 0, 0]) ∧ ReadsWithin (ipPacket 1 [8, 0, 0, 0]) ∧
      ∃ result, receive (ipPacket 1 [8, 0, 0, 0]) idleDevice = .ok result := by
  have notUdp : frameBytes (ipPacket 1 [8, 0, 0, 0]) 23 ≠ 17 := by decide
  have reads : ReadsWithin (ipPacket 1 [8, 0, 0, 0]) :=
    ⟨by decide, fun _ _ => by decide, fun dhcp => absurd dhcp.protocol notUdp, fun dhcp =>
      absurd dhcp.protocol notUdp⟩
  exact ⟨⟨by decide, by decide, by decide⟩, reads, (receive_reads_within_iff _ idleDevice).mpr reads⟩

def faultOf {α : Type} : Except Fault α → Option Fault
  | .error fault => some fault
  | .ok _ => none

theorem eq_error_of_faultOf {α : Type} {result : Except Fault α} {fault : Fault}
    (faulted : faultOf result = some fault) : result = .error fault := by
  cases result with
  | error other => exact congrArg Except.error (Option.some.inj faulted)
  | ok value => cases faulted

/-- An empty frame, an ICMP packet without a byte behind its IP header, and a UDP
packet for port 68 without payload. -/
theorem short_frames_fault : receive [] idleDevice = .error .null ∧
      receive (ipPacket 1 []) idleDevice = .error (.outside 34 1) ∧
      receive (ipPacket 17 [0, 67, 0, 68, 0, 8, 0, 0]) idleDevice = .error (.outside 278 4) :=
  ⟨rfl, eq_error_of_faultOf (by decide +kernel), eq_error_of_faultOf (by decide +kernel)⟩

end Rucix.Net
