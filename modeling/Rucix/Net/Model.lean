import Rucix.Data.Bytes
import Rucix.Data.Word

namespace Rucix.Net

open Rucix.Data

/-! The way of a received frame through `kernel/net`.

Positions in the buffer are counted from `mac_header`.  A read of a field faults unless
all its bytes lie in front of `tail`, and so does a read through a null pointer.  Writes
are made without a check.  Numbers are as the processor loads them, with the low byte
first.  The device and its operations exist.
-/

structure NetDevice where
  devAddr : Vector UInt8 6
  broadcast : Vector UInt8 6
  ipAddr : Nat
  netmask : Nat
  gateway : Nat
  dns : Nat
  /-- Whether `netdev_ops->start_xmit` is set. -/
  startXmit : Bool
  rxPackets : Nat
  rxBytes : Nat
deriving DecidableEq

structure SkBuff where
  bytes : Block
  data : Nat
  tail : Nat
  len : Nat
  networkHeader : Nat
  protocol : Nat
  packetType : Nat

structure RxState where
  skb : SkBuff
  dev : NetDevice

inductive Fault where
  | null
  | outside (offset count : Nat)
deriving DecidableEq

inductive Fate where
  | freed
  | sent
  | kept
deriving DecidableEq

abbrev Rx := StateT RxState (Except Fault)

/-! Accesses. -/

/-- Read `count` bytes; `value` is what they mean. -/
def readField {α : Type} (offset count : Nat) (value : Block → α) : Rx α := fun state =>
  if offset + count ≤ state.skb.tail then .ok (value state.skb.bytes, state)
  else .error (.outside offset count)

def read8 (offset : Nat) : Rx UInt8 := readField offset 1 fun bytes => bytes offset

def read16 (offset : Nat) : Rx Nat := readField offset 2 fun bytes => bytes.get16 offset

def read32 (offset : Nat) : Rx Nat := readField offset 4 fun bytes => bytes.get32 offset

def readBytes (offset count : Nat) : Rx (List UInt8) :=
  readField offset count fun bytes => (List.range count).map fun index => bytes (offset + index)

def modifySkb (change : SkBuff → SkBuff) : Rx Unit :=
  modify fun state => { state with skb := change state.skb }

def modifyDev (change : NetDevice → NetDevice) : Rx Unit :=
  modify fun state => { state with dev := change state.dev }

def writeBytes (offset : Nat) (bytes : List UInt8) : Rx Unit :=
  modifySkb fun skb => { skb with bytes := skb.bytes.put offset bytes }

def write16 (offset value : Nat) : Rx Unit := writeBytes offset (Block.bytes16 value)

def write32 (offset value : Nat) : Rx Unit := writeBytes offset (Block.bytes32 value)

/-- `htons` and `ntohs` -/
def swap16 (value : Nat) : Nat := value % 2 ^ 8 * 2 ^ 8 + value / 2 ^ 8 % 2 ^ 8

/-- `ntohl` -/
def swap32 (value : Nat) : Nat := swap16 (value % 2 ^ 16) * 2 ^ 16 + swap16 (value / 2 ^ 16)

/-! `icmp.c` -/

/-- The loop of `checksum` over the bytes that are left. -/
def sumWords : (offset count sum : Nat) → Rx Nat
  | _, 0, sum => return sum
  | offset, 1, sum => do
    let byte ← read8 offset
    return wrap 32 (sum + byte.toNat)
  | offset, count + 2, sum => do
    let word ← read16 offset
    sumWords (offset + 2) count (wrap 32 (sum + word))

/-- The loop that adds the carries; three turns are enough for 32 bits. -/
def foldCarries : (turns sum : Nat) → Nat
  | 0, sum => sum
  | turns + 1, sum => if sum / 2 ^ 16 = 0 then sum else foldCarries turns (sum % 2 ^ 16 + sum / 2 ^ 16)

def checksum (offset : Nat) (count : Int) : Rx Nat := do
  let sum ← sumWords offset count.toNat 0
  return 2 ^ 16 - 1 - foldCarries 3 sum % 2 ^ 16

def iphdrSize : Nat := 20

def icmpReply (icmph : Nat) : Rx Fate := do
  let iph := (← get).skb.networkHeader
  let daddr ← read32 (iph + 12)
  let saddr ← read32 (iph + 16)
  write32 (iph + 16) daddr
  write32 (iph + 12) saddr
  writeBytes icmph [0]
  write16 (icmph + 2) 0
  let sum ← checksum icmph (((← get).skb.len - iphdrSize : Int).bmod (2 ^ 32))
  write16 (icmph + 2) sum
  write16 (iph + 10) 0
  let sum ← checksum iph iphdrSize
  write16 (iph + 10) sum
  return if (← get).dev.startXmit then .sent else .freed

def icmpRcv : Rx Fate := do
  let icmph := (← get).skb.data + iphdrSize
  let type ← read8 icmph
  if type = 8 then icmpReply icmph else return .freed

/-! `dhcp.c` -/

/-- What `dhcp_input` takes from the options. -/
structure Lease where
  msgType : UInt8
  mask : Nat
  gw : Nat
  dns : Nat
deriving DecidableEq

def optionsSize : Nat := 308

/-- The data of one option, at position `index` of the options. -/
def dhcpOption (options : Nat) (opt : UInt8) (index : Nat) (lease : Lease) : Rx Lease :=
  if opt = 53 then
    if index < optionsSize then do
      let msgType ← read8 (options + index)
      return { lease with msgType }
    else return lease
  else if opt = 1 then
    if index + 4 ≤ optionsSize then do
      let mask ← read32 (options + index)
      return { lease with mask }
    else return lease
  else if opt = 3 then
    if index + 4 ≤ optionsSize then do
      let gw ← read32 (options + index)
      return { lease with gw }
    else return lease
  else if opt = 6 then
    if index + 4 ≤ optionsSize then do
      let dns ← read32 (options + index)
      return { lease with dns }
    else return lease
  else return lease

/-- The loop over the options.  Every turn goes ahead, so there are not more turns
than bytes. -/
def dhcpOptions (options : Nat) : (turns index : Nat) → Lease → Rx Lease
  | 0, _, lease => return lease
  | turns + 1, index, lease =>
    if optionsSize ≤ index then return lease
    else do
      let opt ← read8 (options + index)
      if opt = 255 then return lease
      else if opt = 0 then dhcpOptions options turns (index + 1) lease
      else do
        let len ← read8 (options + (index + 1))
        let lease ← dhcpOption options opt (index + 2) lease
        dhcpOptions options turns (index + 2 + len.toNat) lease

def udphdrSize : Nat := 8

def dhcpInput : Rx Unit := do
  let packet := (← get).skb.data + iphdrSize + udphdrSize
  let cookie ← read32 (packet + 236)
  if swap32 cookie ≠ 0x63825363 then return ()
  else do
    let op ← read8 packet
    if op ≠ 2 then return ()
    else do
      let lease ← dhcpOptions (packet + 240) optionsSize 0 { msgType := 0, mask := 0, gw := 0, dns := 0 }
      if lease.msgType = 2 ∨ lease.msgType = 5 then do
        let yiaddr ← read32 (packet + 16)
        modifyDev fun dev =>
          { dev with ipAddr := yiaddr, netmask := lease.mask, gateway := lease.gw, dns := lease.dns }
      else return ()

/-! `udp.c` and `tcp.c` -/

def udpRcv : Rx Fate := do
  let skb := (← get).skb
  if skb.len < iphdrSize + udphdrSize then return .freed
  else do
    let dest ← read16 (skb.data + iphdrSize + 2)
    if swap16 dest = 68 then do
      dhcpInput
      return .kept
    else return .freed

def tcphdrSize : Nat := 20

/-- Both branches of `tcp_rcv` free the buffer. -/
def tcpRcv : Rx Fate := do
  if (← get).skb.len < iphdrSize + tcphdrSize then return .freed else return .freed

/-! `ip.c` and `arp.c` -/

def ipRcv : Rx Fate := do
  let iph := (← get).skb.data
  if (← get).skb.len < iphdrSize then return .freed
  else do
    let first ← read8 iph
    if first / 16 ≠ 4 then return .freed
    else do
      modifySkb fun skb => { skb with networkHeader := iph }
      let protocol ← read8 (iph + 9)
      if protocol = 1 then icmpRcv
      else if protocol = 17 then udpRcv
      else if protocol = 6 then tcpRcv
      else return .freed

def etharpSize : Nat := 28

def ethhdrSize : Nat := 14

/-- The reply to a request for the address of the device. -/
def arpReply (arp : Nat) : Rx Fate := do
  let dev := (← get).dev
  let senderIp ← read32 (arp + 14)
  write16 (arp + 6) (swap16 2)
  let sha ← readBytes (arp + 8) 6
  writeBytes (arp + 18) sha
  write32 (arp + 24) senderIp
  writeBytes (arp + 8) dev.devAddr.toList
  write32 (arp + 14) dev.ipAddr
  let source ← readBytes (arp - ethhdrSize + 6) 6
  writeBytes (arp - ethhdrSize) source
  writeBytes (arp - ethhdrSize + 6) dev.devAddr.toList
  return if dev.startXmit then .sent else .freed

def arpRcv : Rx Fate := do
  let arp := (← get).skb.data
  if (← get).skb.len < etharpSize then return .freed
  else do
    let hrd ← read16 arp
    if hrd ≠ swap16 1 then return .freed
    else do
      let pro ← read16 (arp + 2)
      if pro ≠ swap16 0x0800 then return .freed
      else do
        let op ← read16 (arp + 6)
        if swap16 op = 1 then do
          let targetIp ← read32 (arp + 24)
          if targetIp = (← get).dev.ipAddr then arpReply arp else return .freed
        else return .freed

/-! `eth.c` and `core/dev.c` -/

/-- The old start of the data, or null if it is too short. -/
def skbPull (len : Nat) : Rx (Option Nat) := do
  let skb := (← get).skb
  if skb.len < len then return none
  else do
    modifySkb fun skb => { skb with data := skb.data + len, len := skb.len - len }
    return some skb.data

/-- Whom the frame is for: everyone, a group, another host or, as it was, this one. -/
def packetTypeOf (dev : NetDevice) (first : UInt8) (dest : List UInt8) (packetType : Nat) : Nat :=
  if first % 2 = 1 then if dest = dev.broadcast.toList then 1 else 2
  else if dest ≠ dev.devAddr.toList then 3
  else packetType

/-- `h_dest` is compared on both branches of the test of its first byte. -/
def ethTypeTrans : Rx Nat := do
  match ← skbPull ethhdrSize with
  | none => throw .null
  | some eth => do
    let first ← read8 eth
    let dest ← readBytes eth 6
    let dev := (← get).dev
    modifySkb fun skb => { skb with packetType := packetTypeOf dev first dest skb.packetType }
    read16 (eth + 12)

/-- The functions in `ptype_base`. -/
inductive PacketType where
  | arp
  | ip
deriving DecidableEq

def PacketType.type : PacketType → Nat
  | .arp => 0x0608
  | .ip => 0x0008

def PacketType.func : PacketType → Rx Fate
  | .arp => arpRcv
  | .ip => ipRcv

/-- The list after `arp_init` and `ip_init`. -/
def ptypeBase : List PacketType := [.arp, .ip]

/-- The loop of `netif_rx`. -/
def packetTypeFor (protocol : Nat) : Option PacketType :=
  ptypeBase.find? fun pt => pt.type = protocol ∨ pt.type = 0xFFFF

def netifRx : Rx Fate := do
  let skb := (← get).skb
  modifyDev fun dev => { dev with rxPackets := dev.rxPackets + 1, rxBytes := dev.rxBytes + skb.len }
  match packetTypeFor skb.protocol with
  | some pt => pt.func
  | none => return .freed

def frameBytes (frame : List UInt8) : Block := fun index => frame.getD index 0

def SkBuff.received (frame : List UInt8) : SkBuff :=
  { bytes := frameBytes frame
    data := 0
    tail := frame.length
    len := frame.length
    networkHeader := 0
    protocol := 0
    packetType := 0 }

def rx : Rx Fate := do
  let protocol ← ethTypeTrans
  modifySkb fun skb => { skb with protocol }
  netifRx

def receive (frame : List UInt8) (dev : NetDevice) : Except Fault (Fate × RxState) :=
  rx.run { skb := .received frame, dev }

end Rucix.Net
