import Rucix.Data.Guards
import Rucix.Net.Model

namespace Rucix.Net

open Rucix.Data

/-! What never reads outside the frame: `arp_rcv`, `tcp_rcv` and `icmp_reply` with
its checksums. -/

variable {α : Type}

/-- The positions in the buffer are those of `skb`; its bytes may have changed. -/
structure Kept (skb : SkBuff) (state : RxState) : Prop where
  data : state.skb.data = skb.data
  tail : state.skb.tail = skb.tail
  len : state.skb.len = skb.len
  networkHeader : state.skb.networkHeader = skb.networkHeader

def SkBuff.extent (skb : SkBuff) : Nat × Nat × Nat := (skb.data, skb.len, skb.tail)

theorem Kept.extent (kept : Kept skb state) : state.skb.extent = skb.extent := by
  rw [SkBuff.extent, kept.data, kept.len, kept.tail]
  rfl

theorem Kept.guards {action : Rx α} (safe : Safe (Kept state.skb) action) :
    Guards action state True fun _ after => after.skb.extent = state.skb.extent :=
  (safe state ⟨rfl, rfl, rfl, rfl⟩).mono fun _ _ kept => kept.extent

theorem readField_guards (offset : Nat) (value : Block → α) (state : RxState) :
    Guards (readField offset count value) state (offset + count ≤ state.skb.tail) fun result after =>
      result = value state.skb.bytes ∧ after = state := by
  constructor
  · intro inside
    exact ⟨value state.skb.bytes, state, if_pos inside, rfl, rfl⟩
  · intro outside
    exact ⟨.outside offset count, if_neg outside⟩

theorem readField_safe (inside : offset + count ≤ skb.tail) :
    Safe (Kept skb) (readField offset count value) := by
  intro state kept
  refine ((readField_guards offset value state).congr ?_).mono ?_
  · rw [kept.tail, iff_true]
    exact inside
  · rintro _ _ ⟨rfl, rfl⟩
    exact kept

theorem read8_safe (inside : offset + 1 ≤ skb.tail) : Safe (Kept skb) (read8 offset) :=
  readField_safe inside

theorem read16_safe (inside : offset + 2 ≤ skb.tail) : Safe (Kept skb) (read16 offset) :=
  readField_safe inside

theorem read32_safe (inside : offset + 4 ≤ skb.tail) : Safe (Kept skb) (read32 offset) :=
  readField_safe inside

theorem readBytes_safe (inside : offset + count ≤ skb.tail) : Safe (Kept skb) (readBytes offset count) :=
  readField_safe inside

theorem writeBytes_safe : Safe (Kept skb) (writeBytes offset bytes) := by
  intro state kept
  refine (Guards.modify _).mono ?_
  rintro _ _ rfl
  exact ⟨kept.data, kept.tail, kept.len, kept.networkHeader⟩

theorem sumWords_safe (inside : offset + count ≤ skb.tail) :
    Safe (Kept skb) (sumWords offset count sum) := by
  induction offset, count, sum using sumWords.induct with
  | case1 offset sum => exact .pure
  | case2 offset sum => exact .bind (read8_safe inside) fun byte => .pure
  | case3 offset count sum ih =>
    exact .bind (read16_safe (by omega)) fun word => ih word (by omega)

theorem checksum_safe (inside : offset + total.toNat ≤ skb.tail) : Safe (Kept skb) (checksum offset total) :=
  .bind (sumWords_safe inside) fun _ => .pure

/-- A difference that is taken as an `int` counts no more bytes than there are. -/
theorem toNat_bmod_le (total less : Nat) (small : less ≤ 2 ^ 31) :
    ((total - less : Int).bmod (2 ^ 32)).toNat ≤ total - less := by
  rw [Int.bmod_def]
  by_cases low : (total - less : Int) % (2 ^ 32 : Nat) < ((2 ^ 32 : Nat) + 1) / 2
  · omega
  · omega

theorem icmpReply_safe (header : skb.networkHeader + iphdrSize ≤ skb.tail)
    (payload : icmph + (skb.len - iphdrSize) ≤ skb.tail) : Safe (Kept skb) (icmpReply icmph) := by
  refine .get_bind fun state kept => ?_
  have header : state.skb.networkHeader + 20 ≤ skb.tail := by
    rw [kept.networkHeader]
    exact header
  refine .bind (read32_safe (by omega)) fun daddr => ?_
  refine .bind (read32_safe (by omega)) fun saddr => ?_
  refine .bind (writeBytes_safe) fun _ => .bind (writeBytes_safe) fun _ => ?_
  refine .bind (writeBytes_safe) fun _ => .bind (writeBytes_safe) fun _ => ?_
  refine .get_bind fun later kept => ?_
  have count : ((later.skb.len - iphdrSize : Int).bmod (2 ^ 32)).toNat ≤ skb.len - iphdrSize := by
    rw [kept.len]
    exact toNat_bmod_le skb.len iphdrSize (by decide)
  refine .bind (checksum_safe (by omega)) fun sum => ?_
  refine .bind (writeBytes_safe) fun _ => .bind (writeBytes_safe) fun _ => ?_
  refine .bind (checksum_safe header) fun sum => .bind (writeBytes_safe) fun _ => ?_
  exact .get_bind fun _ _ => .pure

theorem arpReply_safe (inside : arp + etharpSize ≤ skb.tail) : Safe (Kept skb) (arpReply arp) := by
  simp only [etharpSize] at inside
  refine .get_bind fun state kept => ?_
  refine .bind (read32_safe (by omega)) fun senderIp => .bind (writeBytes_safe) fun _ => ?_
  refine .bind (readBytes_safe (by omega)) fun sha => .bind (writeBytes_safe) fun _ => ?_
  refine .bind (writeBytes_safe) fun _ => .bind (writeBytes_safe) fun _ => ?_
  refine .bind (writeBytes_safe) fun _ => .bind (readBytes_safe (by omega)) fun source => ?_
  exact .bind (writeBytes_safe) fun _ => .bind (writeBytes_safe) fun _ => .pure

theorem arpRcv_safe (bound : skb.data + skb.len ≤ skb.tail) : Safe (Kept skb) arpRcv := by
  refine .get_bind fun state kept => .get_bind fun later again => ?_
  rw [kept.data, again.len]
  split
  · exact .pure
  · next long =>
    have inside : skb.data + 28 ≤ skb.tail := by
      simp only [etharpSize] at long
      omega
    refine .bind (read16_safe (by omega)) fun hrd => ?_
    split
    · exact .pure
    · refine .bind (read16_safe (by omega)) fun pro => ?_
      split
      · exact .pure
      · refine .bind (read16_safe (by omega)) fun op => ?_
        split
        · refine .bind (read32_safe (by omega)) fun targetIp => .get_bind fun _ _ => ?_
          split
          · exact arpReply_safe inside
          · exact .pure
        · exact .pure

theorem tcpRcv_safe : Safe (Kept skb) tcpRcv := by
  refine .get_bind fun state kept => ?_
  split
  · exact .pure
  · exact .pure

end Rucix.Net
