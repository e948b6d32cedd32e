import Rucix.Net.Replies
import Mathlib.Algebra.Order.BigOperators.Group.Finset
import Mathlib.Algebra.Module.NatInt

namespace Rucix.Net

open Rucix.Data Block Finset

/-! The way of a UDP packet to the driver.

Positions in the buffer are counted from `head`.  A write through a null pointer
faults, the others are made without a check.
-/

/-- `stop` is `end`. -/
structure Layout where
  data : Int
  tail : Int
  stop : Int
  len : Nat
deriving DecidableEq

structure Layout.Ordered (layout : Layout) : Prop where
  head_le : 0 ≤ layout.data
  data_le : layout.data ≤ layout.tail
  tail_le : layout.tail ≤ layout.stop
  len_eq : (layout.len : Int) = layout.tail - layout.data

/-- A buffer with the layouts that its operations gave it, the newest one first. -/
structure TxBuff where
  bytes : Block
  layout : Layout
  history : List Layout

abbrev Tx := StateT TxBuff (Except Fault)

/-- `memory` is what `kmalloc` returned. -/
def allocSkb (memory : Block) (size : Nat) : TxBuff :=
  let layout := { data := 0, tail := 0, stop := size, len := 0 }
  { bytes := memory, layout, history := [layout] }

def relayout (change : Layout → Layout) : Tx Unit :=
  modify fun skb =>
    { skb with layout := change skb.layout, history := change skb.layout :: skb.history }

def skbReserve (len : Nat) : Tx Unit :=
  relayout fun layout => { layout with data := layout.data + len, tail := layout.tail + len }

/-- The old tail, or null if the new one is behind the end. -/
def skbPut (len : Nat) : Tx (Option Nat) := do
  let before := (← get).layout
  relayout fun layout => { layout with tail := layout.tail + len, len := wrap 32 (layout.len + len) }
  let after := (← get).layout
  return if after.stop < after.tail then none else some before.tail.toNat

/-- The new start of the data, or null if it is in front of the head. -/
def skbPush (len : Nat) : Tx (Option Nat) := do
  relayout fun layout => { layout with data := layout.data - len, len := wrap 32 (layout.len + len) }
  let after := (← get).layout
  return if after.data < 0 then none else some after.data.toNat

def store (pointer : Option Nat) (offset : Nat) (bytes : List UInt8) : Tx Unit :=
  match pointer with
  | some start => modify fun skb => { skb with bytes := skb.bytes.put (start + offset) bytes }
  | none => if bytes = [] then pure () else throw .null

/-- The number in `acc` before the carries are added. -/
def addWords (bytes : Block) (offset length : Nat) : Nat :=
  let acc := (List.range (length / 2)).foldl (fun acc index => wrap 32 (acc + bytes.get16 (offset + 2 * index))) 0
  if length % 2 = 1 then wrap 32 (acc + (bytes (offset + (length - 1))).toNat) else acc

def ipChecksum (bytes : Block) (offset length : Nat) : Nat :=
  2 ^ 16 - 1 - foldCarries 3 (addWords bytes offset length) % 2 ^ 16

/-- Up to the call of `dev_queue_xmit`. -/
def ipSendPacket (dev : Option NetDevice) (destIp : UInt32) (protocol : UInt8) : Tx Fate :=
  match dev with
  | none => return .freed
  | some dev => do
    let iph ← skbPush iphdrSize
    store iph 0 (List.replicate iphdrSize 0)
    -- `version` and `ihl` are the halves of one byte
    store iph 0 [0x45]
    store iph 1 [0]
    store iph 2 (bytes16 (swap16 (← get).layout.len))
    store iph 4 (bytes16 (swap16 1))
    store iph 6 (bytes16 0)
    store iph 8 [64]
    store iph 9 [protocol]
    store iph 10 (bytes16 0)
    store iph 12 (bytes32 dev.ipAddr)
    store iph 16 (bytes32 destIp.toNat)
    store iph 10 (bytes16 (ipChecksum (← get).bytes (iph.getD 0) iphdrSize))
    let eth ← skbPush ethhdrSize
    store eth 12 (bytes16 (swap16 0x0800))
    store eth 6 dev.devAddr.toList
    -- on both branches of the test of `dest_ip`
    store eth 0 (List.replicate 6 0xFF)
    return .sent

/-- What `udp_send_packet` does with its buffer. -/
def udpFill (dev : Option NetDevice) (destIp : UInt32) (srcPort destPort : UInt16) (payload : List UInt8) :
    Tx Fate := do
  skbReserve (ethhdrSize + iphdrSize + udphdrSize)
  let body ← skbPut payload.length
  store body 0 payload
  let uh ← skbPush udphdrSize
  store uh 0 (bytes16 (swap16 srcPort.toNat))
  store uh 2 (bytes16 (swap16 destPort.toNat))
  store uh 4 (bytes16 (swap16 (payload.length + udphdrSize)))
  store uh 6 (bytes16 0)
  ipSendPacket dev destIp 17

/-- Nothing if there is no memory, or the buffer with what becomes of it: it is freed,
or handed to `dev_queue_xmit`. -/
def udpSendPacket (memory : Option Block) (dev : Option NetDevice) (destIp : UInt32)
    (srcPort destPort : UInt16) (payload : List UInt8) : Except Fault (Option (Fate × TxBuff)) :=
  match memory with
  | none => .ok none
  | some memory => do
    let size := wrap 32 (payload.length + udphdrSize + iphdrSize + ethhdrSize + 32)
    return some (← (udpFill dev destIp srcPort destPort payload).run (allocSkb memory size))

section Checksum

variable {bytes other : Block} {offset length place : Nat}

/-- The words and a last byte as numbers. -/
def wordSum (bytes : Block) (offset length : Nat) : Nat :=
  (∑ index ∈ range (length / 2), bytes.get16 (offset + 2 * index)) +
    if length % 2 = 1 then (bytes (offset + (length - 1))).toNat else 0

theorem addWords_eq : addWords bytes offset length = wrap 32 (wordSum bytes offset length) := by
  have loop : ∀ count, (List.range count).foldl
      (fun acc index => wrap 32 (acc + bytes.get16 (offset + 2 * index))) 0 =
        wrap 32 (∑ index ∈ range count, bytes.get16 (offset + 2 * index)) := by
    intro count
    induction count with
    | zero => rfl
    | succ count ih =>
      rw [List.range_succ, List.foldl_append, ih, sum_range_succ]
      exact Nat.mod_add_mod ..
  rw [addWords, wordSum, loop]
  split
  · exact Nat.mod_add_mod ..
  · rw [Nat.add_zero]

/-- Not more than 65536 words leave the sum below `2 ^ 32`. -/
theorem wordSum_lt (short : length ≤ 131072) : wordSum bytes offset length < 2 ^ 32 := by
  have words : ∑ index ∈ range (length / 2), bytes.get16 (offset + 2 * index) ≤
      length / 2 * (2 ^ 16 - 1) := by
    have bound := sum_le_card_nsmul (range (length / 2))
      (fun index => bytes.get16 (offset + 2 * index)) (2 ^ 16 - 1) fun index _ =>
        Nat.le_sub_one_of_lt get16_lt
    rwa [card_range] at bound
  have last := (bytes (offset + (length - 1))).toNat_lt
  rw [wordSum]
  split <;> omega

/-- Adding the carries keeps the number modulo `2 ^ 16 - 1`, and only nothing
becomes zero. -/
theorem foldCarries_spec {sum : Nat} (bound : sum < 2 ^ 32) :
    foldCarries 3 sum < 2 ^ 16 ∧ foldCarries 3 sum % 65535 = sum % 65535 ∧ (foldCarries 3 sum = 0 ↔ sum = 0) := by
  simp only [foldCarries]
  split
  · omega
  · split
    · omega
    · split <;> omega

theorem ipChecksum_congr (same : ∀ index < length, other (offset + index) = bytes (offset + index)) :
    ipChecksum other offset length = ipChecksum bytes offset length := by
  have equal : wordSum other offset length = wordSum bytes offset length := by
    rw [wordSum]
    congr 1
    · refine sum_congr rfl fun index inside => ?_
      have inside := mem_range.mp inside
      exact get16_congr (same _ (by omega)) (same (2 * index + 1) (by omega))
    · split
      · rw [same (length - 1) (by omega)]
      · rfl
  rw [ipChecksum, ipChecksum, addWords_eq, addWords_eq, equal]

/-- A number in a field that was zero is added. -/
theorem wordSum_put16 (inside : 2 * place + 2 ≤ length) (zero : bytes.get16 (offset + 2 * place) = 0)
    (small : value < 2 ^ 16) :
    wordSum (bytes.put16 (offset + 2 * place) value) offset length = wordSum bytes offset length + value := by
  have member : place ∈ range (length / 2) := mem_range.mpr (by omega)
  have others : ∑ index ∈ (range (length / 2)).erase place,
      (bytes.put16 (offset + 2 * place) value).get16 (offset + 2 * index) =
        ∑ index ∈ (range (length / 2)).erase place, bytes.get16 (offset + 2 * index) := by
    refine sum_congr rfl fun index inside => get16_put_outside ?_
    have apart := ne_of_mem_erase inside
    rw [bytes16_length]
    omega
  have last : length % 2 = 1 → bytes.put16 (offset + 2 * place) value (offset + (length - 1)) =
      bytes (offset + (length - 1)) := fun odd =>
    put_outside (by rw [bytes16_length]; omega)
  rw [wordSum, wordSum, ← add_sum_erase _ _ member, ← add_sum_erase _ _ member,
    get16_put16]
  split
  · next odd =>
    rw [last odd]
    omega
  · omega

/-- With its checksum in the field that was zero for it, a header verifies. -/
theorem ipChecksum_stored (inside : 2 * place + 2 ≤ length) (short : length ≤ 131072)
    (zero : bytes.get16 (offset + 2 * place) = 0) :
    ipChecksum (bytes.put16 (offset + 2 * place) (ipChecksum bytes offset length)) offset length = 0 := by
  have bound : wordSum bytes offset length < 2 ^ 32 := wordSum_lt short
  obtain ⟨low, residue, nothing⟩ := foldCarries_spec bound
  have check : ipChecksum bytes offset length = 65535 - foldCarries 3 (wordSum bytes offset length) := by
    rw [ipChecksum, addWords_eq, wrap_of_lt bound, Nat.mod_eq_of_lt low]
    rfl
  have stored := wordSum_put16 inside zero (show ipChecksum bytes offset length < 2 ^ 16 by omega)
  have after : wordSum (bytes.put16 (offset + 2 * place) (ipChecksum bytes offset length)) offset length < 2 ^ 32 :=
    wordSum_lt short
  obtain ⟨lower, same, null⟩ := foldCarries_spec after
  rw [ipChecksum, addWords_eq, wrap_of_lt after]
  omega

end Checksum

def TxBuff.handed (skb : TxBuff) : SkBuff :=
  { bytes := skb.bytes
    data := skb.layout.data.toNat
    tail := skb.layout.tail.toNat
    len := skb.layout.len
    networkHeader := 0
    protocol := 0
    packetType := 0 }

def loopbackXmit : Rx Fate := rx

/-- The counters of sent packets are left out. -/
def devQueueXmit (startXmit : Rx Fate) : Rx Fate := do
  if (← get).dev.startXmit then startXmit else return .freed

theorem readField_run {α : Type} {offset count : Nat} {value : Block → α} {state : RxState}
    (inside : offset + count ≤ state.skb.tail) :
    (readField offset count value).run state = .ok (value state.skb.bytes, state) :=
  if_pos inside

theorem ok_bind : (Except.ok value >>= next) = next value := rfl

/-- A UDP packet goes through `ip_rcv` to `udp_rcv`. -/
theorem rx_udp {skb : SkBuff} (dev : NetDevice) (data : skb.data = 0) (long : 34 ≤ skb.len)
    (inside : skb.len ≤ skb.tail) (type : skb.bytes.get16 12 = 0x0008) (version : skb.bytes 14 / 16 = 4)
    (protocol : skb.bytes 23 = 17) : ∃ reached, rx.run { skb, dev } = udpRcv.run reached ∧
      reached.skb.bytes = skb.bytes ∧ reached.skb.data = 14 ∧ reached.skb.len = skb.len - 14 := by
  have ethernet : ¬skb.len < 14 := by omega
  have header : ¬skb.len - 14 < 20 := by omega
  have isIp : packetTypeFor 8 = some .ip := rfl
  have reads {count : Nat} (small : count ≤ 34) : count ≤ skb.tail := by omega
  refine ⟨?reached, ?run, ?kept⟩
  case run =>
    simp [rx, ethTypeTrans, skbPull, ethhdrSize, read8, read16, readBytes,
      readField_run, ok_bind, modifySkb, modifyDev, netifRx, PacketType.func, ipRcv, iphdrSize, data, ethernet,
      type, isIp, header, version, protocol, reads]
    rfl
  case kept => simp

/-- An IP packet at the data of `skb` that carries `payload` in a UDP packet. -/
structure Carries (skb : SkBuff) (srcPort destPort : UInt16) (payload : List UInt8) : Prop where
  len : skb.len = payload.length + 28
  version : skb.bytes skb.data / 16 = 4
  ihl : skb.bytes skb.data % 16 = 5
  totLen : swap16 (skb.bytes.get16 (skb.data + 2)) = payload.length + 28
  protocol : skb.bytes (skb.data + 9) = 17
  check : ipChecksum skb.bytes skb.data 20 = 0
  source : swap16 (skb.bytes.get16 (skb.data + 20)) = srcPort.toNat
  dest : swap16 (skb.bytes.get16 (skb.data + 22)) = destPort.toNat
  udpLen : swap16 (skb.bytes.get16 (skb.data + 24)) = payload.length + 8
  payload : ∀ index (inside : index < payload.length), skb.bytes (skb.data + 28 + index) = payload[index]

theorem swap16_swap16 (small : value < 2 ^ 16) : swap16 (swap16 value % 2 ^ 16) = value := by
  have high : value / 2 ^ 8 % 2 ^ 8 = value / 2 ^ 8 := Nat.mod_eq_of_lt (by omega)
  have swapped : swap16 value % 2 ^ 16 = value % 2 ^ 8 * 2 ^ 8 + value / 2 ^ 8 := by
    rw [swap16]
    omega
  have back : (value % 2 ^ 8 * 2 ^ 8 + value / 2 ^ 8) / 2 ^ 8 = value % 2 ^ 8 := by omega
  rw [swapped, swap16]
  omega

section Frame

variable {memory : Block} {dev : NetDevice} {destIp : UInt32} {srcPort destPort : UInt16} {payload : List UInt8}

/-- What is stored up to the call of `ip_checksum`. -/
def packetStores (dev : NetDevice) (destIp : UInt32) (srcPort destPort : UInt16) (payload : List UInt8) :
    List (Nat × List UInt8) :=
  [(42, payload), (34, bytes16 (swap16 srcPort.toNat)), (36, bytes16 (swap16 destPort.toNat)),
    (38, bytes16 (swap16 (payload.length + 8))), (40, bytes16 0), (14, List.replicate 20 0),
    (14, [0x45]), (15, [0]), (16, bytes16 (swap16 (payload.length + 28))), (18, bytes16 (swap16 1)),
    (20, bytes16 0), (22, [64]), (23, [17]), (24, bytes16 0), (26, bytes32 dev.ipAddr),
    (30, bytes32 destIp.toNat)]

def ethStores (dev : NetDevice) : List (Nat × List UInt8) :=
  [(12, bytes16 (swap16 0x0800)), (6, dev.devAddr.toList), (0, List.replicate 6 0xFF)]

/-- With the checksum of the IP header. -/
def udpPacket (memory : Block) (dev : NetDevice) (destIp : UInt32) (srcPort destPort : UInt16)
    (payload : List UInt8) : Block :=
  let plain := memory.puts (packetStores dev destIp srcPort destPort payload)
  plain.put16 24 (ipChecksum plain 14 20)

theorem udpSendPacket_eq (memory : Block) (srcPort : UInt16) (fits : payload.length + 74 < 2 ^ 32) :
    ∃ skb, udpSendPacket (some memory) (some dev) destIp srcPort destPort payload = .ok (some (.sent, skb)) ∧
      skb.bytes = (udpPacket memory dev destIp srcPort destPort payload).puts (ethStores dev) ∧
      skb.layout = ⟨0, 42 + payload.length, payload.length + 74, payload.length + 42⟩ ∧
      ∀ layout ∈ skb.history, layout.Ordered := by
  have size : wrap 32 (payload.length + 8 + 20 + 14 + 32) = payload.length + 74 := wrap_of_lt fits
  have len : wrap 32 payload.length = payload.length := wrap_of_lt (by omega)
  have udp : wrap 32 (payload.length + 8) = payload.length + 8 := wrap_of_lt (by omega)
  have ip : wrap 32 (payload.length + 28) = payload.length + 28 := wrap_of_lt (by omega)
  have eth : wrap 32 (payload.length + 42) = payload.length + 42 := wrap_of_lt (by omega)
  have inside : ¬(payload.length + 74 : Int) < 42 + payload.length := by omega
  refine ⟨?skb, ?sent, ?built⟩
  case sent =>
    simp [udpSendPacket, udpFill, allocSkb, skbReserve, skbPut, skbPush, relayout, store, ipSendPacket, iphdrSize,
      ethhdrSize, udphdrSize, size, inside, len, udp, ip, eth]
    rfl
  refine ⟨rfl, rfl, fun layout member => ?_⟩
  simp only [List.mem_cons, List.not_mem_nil, or_false] at member
  rcases member with rfl | rfl | rfl | rfl | rfl | rfl <;> constructor <;> push_cast <;> omega

theorem exists_bytes (bytes : Vector UInt8 6) : ∃ a b c d e f, bytes.toList = [a, b, c, d, e, f] := by
  obtain ⟨⟨list⟩, size⟩ := bytes
  match list, size with
  | [a, b, c, d, e, f], _ => exact ⟨a, b, c, d, e, f, rfl⟩

variable {bytes : Block}
  (isFrame : bytes = (udpPacket memory dev destIp srcPort destPort payload).puts (ethStores dev))

include isFrame

theorem udpPacket_path : bytes.get16 12 = 0x0008 ∧ bytes 14 = 0x45 ∧ bytes 23 = 17 := by
  obtain ⟨a, b, c, d, e, f, address⟩ := exists_bytes dev.devAddr
  rw [isFrame, ethStores, address]
  exact ⟨rfl, rfl, rfl⟩

theorem udpPacket_fields : bytes.get16 16 = swap16 (payload.length + 28) % 2 ^ 16 ∧
    bytes.get16 34 = swap16 srcPort.toNat % 2 ^ 16 ∧ bytes.get16 36 = swap16 destPort.toNat % 2 ^ 16 ∧
    bytes.get16 38 = swap16 (payload.length + 8) % 2 ^ 16 := by
  obtain ⟨a, b, c, d, e, f, address⟩ := exists_bytes dev.devAddr
  rw [isFrame, ethStores, address]
  exact ⟨@get16_put16 memory 16 _, @get16_put16 memory 34 _, @get16_put16 memory 36 _,
    @get16_put16 memory 38 _⟩

theorem udpPacket_behind (behind : 14 ≤ position) :
    bytes position = udpPacket memory dev destIp srcPort destPort payload position := by
  rw [isFrame]
  refine puts_outside fun copy member => ?_
  simp only [ethStores, List.mem_cons, List.not_mem_nil, or_false] at member
  rcases member with rfl | rfl | rfl <;> simp [bytes16_length] <;> omega

theorem udpPacket_payload (inside : index < payload.length) : bytes (42 + index) = payload[index] := by
  rw [udpPacket_behind isFrame (by omega)]
  refine (put_outside (by rw [bytes16_length]; omega)).trans ?_
  rw [← @put_inside memory 42 payload index inside]
  refine @puts_outside (memory.put 42 payload) _ (packetStores dev destIp srcPort destPort payload).tail ?_
  simp [packetStores, bytes16_length, bytes32_length]
  omega

theorem udpPacket_check : ipChecksum bytes 14 20 = 0 := by
  have same := @ipChecksum_congr _ _ 14 20 fun index _ => udpPacket_behind isFrame (Nat.le_add_right 14 index)
  exact same.trans (@ipChecksum_stored _ 14 20 5 (by decide) (by decide) rfl)

theorem udpPacket_carries (sameBytes : skb.bytes = bytes) (data : skb.data = 14) (len : skb.len = payload.length + 28)
    (short : payload.length ≤ 65507) : Carries skb srcPort destPort payload := by
  obtain ⟨-, first, protocol⟩ := udpPacket_path isFrame
  obtain ⟨totLen, source, dest, udpLen⟩ := udpPacket_fields isFrame
  refine ⟨len, ?_, ?_, ?_, ?_, ?_, ?_, ?_, ?_, ?_⟩
  all_goals rw [sameBytes, data]
  · rw [first]
    rfl
  · rw [first]
    rfl
  · exact (congrArg swap16 totLen).trans (swap16_swap16 (by omega))
  · exact protocol
  · exact udpPacket_check isFrame
  · exact (congrArg swap16 source).trans (swap16_swap16 srcPort.toNat_lt)
  · exact (congrArg swap16 dest).trans (swap16_swap16 destPort.toNat_lt)
  · exact (congrArg swap16 udpLen).trans (swap16_swap16 (by omega))
  · exact fun index inside => udpPacket_payload isFrame inside

end Frame

/-- What `udp_send_packet` hands to the loopback device comes to `udp_rcv` as it was
given.  The layout of the buffer is in order after each operation. -/
theorem udp_loopback_round_trip (memory : Block) (dev : NetDevice) (destIp : UInt32) (srcPort destPort : UInt16)
    (payload : List UInt8) (short : payload.length ≤ 65507) (hasXmit : dev.startXmit = true) :
    ∃ skb, udpSendPacket (some memory) (some dev) destIp srcPort destPort payload = .ok (some (.sent, skb)) ∧
      (∀ layout ∈ skb.history, layout.Ordered) ∧
      ∃ reached, (devQueueXmit loopbackXmit).run { skb := skb.handed, dev } = udpRcv.run reached ∧
        Carries reached.skb srcPort destPort payload := by
  obtain ⟨skb, sent, isFrame, layout, ordered⟩ :=
    udpSendPacket_eq memory srcPort (show payload.length + 74 < 2 ^ 32 by omega)
  obtain ⟨type, first, protocol⟩ := udpPacket_path isFrame
  have data : skb.handed.data = 0 := by rw [TxBuff.handed, layout]; rfl
  have len : skb.handed.len = payload.length + 42 := by rw [TxBuff.handed, layout]
  have tail : skb.handed.tail = 42 + payload.length := by rw [TxBuff.handed, layout]; rfl
  have version : skb.bytes 14 / 16 = 4 := by rw [first]; rfl
  obtain ⟨reached, run, sameBytes, sameData, sameLen⟩ :=
    rx_udp dev data (by omega) (by omega) type version protocol
  refine ⟨skb, sent, ordered, reached, ?_, ?_⟩
  · rw [← run]
    simp [devQueueXmit, loopbackXmit, hasXmit]
  · exact udpPacket_carries isFrame sameBytes sameData (by omega) short

/-- As `loopback_setup` makes it. -/
def loopbackDevice : NetDevice :=
  { devAddr := Vector.replicate 6 0, broadcast := Vector.replicate 6 0, ipAddr := 0, netmask := 0, gateway := 0,
    dns := 0, startXmit := true, rxPackets := 0, rxBytes := 0 }

theorem udp_loopback_round_trip_two_bytes :
    ([104, 105] : List UInt8).length ≤ 65507 ∧ loopbackDevice.startXmit = true ∧
      ∃ skb, udpSendPacket (some zero) (some loopbackDevice) 0x0100007F 5000 6000 [104, 105] =
          .ok (some (.sent, skb)) ∧
        (∀ layout ∈ skb.history, layout.Ordered) ∧
        ∃ reached, (devQueueXmit loopbackXmit).run { skb := skb.handed, dev := loopbackDevice } =
            udpRcv.run reached ∧ Carries reached.skb 5000 6000 [104, 105] :=
  ⟨by decide, rfl, udp_loopback_round_trip zero loopbackDevice 0x0100007F 5000 6000 [104, 105] (by decide) rfl⟩

end Rucix.Net
