import Rucix.Net.Replies

namespace Rucix.Net

open Rucix.Data

/-! The options of a DHCP packet.

`dhcp_input` goes through them up to the size of its `struct`, not up to the end
of the packet.
-/

/-- The bytes of the data of an option that are used are available. -/
def DataWithin (available : Nat) (opt : UInt8) (index : Nat) : Prop :=
  (opt = 53 → index < optionsSize → index < available) ∧
    (opt = 1 ∨ opt = 3 ∨ opt = 6 → index + 4 ≤ optionsSize → index + 4 ≤ available)

/-- From `index` on, the options end or reach their greatest size before they leave
the bytes that are available. -/
inductive OptionsWithin (options : Nat → UInt8) (available : Nat) : Nat → Prop where
  | full {index : Nat} (reached : optionsSize ≤ index) : OptionsWithin options available index
  | stop {index : Nat} (inside : index < available) (isStop : options index = 255) :
      OptionsWithin options available index
  | pad {index : Nat} (inside : index < available) (isPad : options index = 0)
      (rest : OptionsWithin options available (index + 1)) : OptionsWithin options available index
  | option {index : Nat} (inside : index + 1 < available) (isOption : options index ≠ 0)
      (data : DataWithin available (options index) (index + 2))
      (rest : OptionsWithin options available (index + 2 + (options (index + 1)).toNat)) :
      OptionsWithin options available index

/-- Bytes for the whole `struct` and one more are enough. -/
theorem optionsWithin_of_available (enough : optionsSize < available) :
    OptionsWithin options available index := by
  by_cases reached : optionsSize ≤ index
  · exact .full reached
  · by_cases isPad : options index = 0
    · exact .pad (by omega) isPad (optionsWithin_of_available enough)
    · exact .option (by omega) isPad ⟨fun _ _ => by omega, fun _ _ => by omega⟩
        (optionsWithin_of_available enough)
termination_by optionsSize - index

theorem optionsWithin_iff (short : index < optionsSize) :
    OptionsWithin options available index ↔ index < available ∧
      (options index = 255 ∨ options index = 0 ∧ OptionsWithin options available (index + 1) ∨
        options index ≠ 0 ∧ options index ≠ 255 ∧ index + 1 < available ∧
          DataWithin available (options index) (index + 2) ∧
          OptionsWithin options available (index + 2 + (options (index + 1)).toNat)) := by
  constructor
  · intro within
    cases within with
    | full reached => omega
    | stop inside isStop => exact ⟨inside, .inl isStop⟩
    | pad inside isPad rest => exact ⟨inside, .inr (.inl ⟨isPad, rest⟩)⟩
    | option inside isOption data rest =>
      refine ⟨by omega, ?_⟩
      by_cases isStop : options index = 255
      · exact .inl isStop
      · exact .inr (.inr ⟨isOption, isStop, inside, data, rest⟩)
  · rintro ⟨inside, isStop | ⟨isPad, rest⟩ | ⟨isOption, -, next, data, rest⟩⟩
    · exact .stop inside isStop
    · exact .pad inside isPad rest
    · exact .option next isOption data rest

theorem guarded_read {α : Type} (value : Block → α) (update : α → Lease) [Decidable bounded] :
    Guards (if bounded then do return update (← readField offset count value) else return lease) state
      (bounded → offset + count ≤ state.skb.tail) fun _ after => after = state := by
  refine .when (fun _ => ?_) fun _ => .pure rfl
  exact (readField_guards offset value state).bind_of fun _ _ _ same => .pure same.2

theorem dataWithin_message (inside : base ≤ tail) :
    (index < optionsSize → base + index + 1 ≤ tail) ↔ DataWithin (tail - base) 53 index := by
  constructor
  · intro read
    refine ⟨fun _ short => ?_, fun other => absurd other (by decide)⟩
    omega
  · intro data short
    have := data.1 rfl short
    omega

theorem dataWithin_address (inside : base ≤ tail) (isAddress : opt = 1 ∨ opt = 3 ∨ opt = 6) :
    (index + 4 ≤ optionsSize → base + index + 4 ≤ tail) ↔ DataWithin (tail - base) opt index := by
  constructor
  · intro read
    refine ⟨fun message => ?_, fun _ short => ?_⟩
    · subst message
      exact absurd isAddress (by decide)
    · omega
  · intro data short
    have := data.2 isAddress short
    omega

theorem dhcpOption_guards
    (inside : base ≤ state.skb.tail) :
    Guards (dhcpOption base opt index lease) state (DataWithin (state.skb.tail - base) opt index)
      fun _ after => after = state := by
  rw [dhcpOption]
  by_cases message : opt = 53
  · subst message
    exact (guarded_read ..).congr (dataWithin_message inside)
  · rw [if_neg message]
    by_cases mask : opt = 1
    · rw [if_pos mask]
      exact (guarded_read ..).congr (dataWithin_address inside (.inl mask))
    · rw [if_neg mask]
      by_cases gateway : opt = 3
      · rw [if_pos gateway]
        exact (guarded_read ..).congr (dataWithin_address inside (.inr (.inl gateway)))
      · rw [if_neg gateway]
        by_cases dns : opt = 6
        · rw [if_pos dns]
          exact (guarded_read ..).congr (dataWithin_address inside (.inr (.inr dns)))
        · rw [if_neg dns]
          refine .congr (iff_of_true trivial ⟨fun same => absurd same message, ?_⟩) (.pure rfl)
          rintro (same | same | same)
          · exact absurd same mask
          · exact absurd same gateway
          · exact absurd same dns

/-- The loop faults exactly if the options leave the packet. -/
theorem dhcpOptions_guards (base : Nat) {turns index : Nat} (enough : optionsSize ≤ index + turns) (lease : Lease)
    (state : RxState) (inside : base ≤ state.skb.tail) :
    Guards (dhcpOptions base turns index lease) state
      (OptionsWithin (fun index => state.skb.bytes (base + index)) (state.skb.tail - base) index)
      fun _ after => after = state := by
  induction turns generalizing index lease with
  | zero => exact .congr (iff_of_true trivial (.full (by omega))) (.pure rfl)
  | succ turns ih =>
    rw [dhcpOptions]
    by_cases reached : optionsSize ≤ index
    · rw [if_pos reached]
      exact .congr (iff_of_true trivial (.full reached)) (.pure rfl)
    · rw [if_neg reached]
      refine .congr (optionsWithin_iff (by omega)).symm ?_
      have first : base + index + 1 ≤ state.skb.tail ↔ index < state.skb.tail - base := by omega
      rw [← first]
      refine (readField_guards _ _ state).bind_value fun _ => ?_
      by_cases isStop : state.skb.bytes (base + index) = 255
      · rw [if_pos isStop]
        exact .congr (iff_of_true trivial (.inl isStop)) (.pure rfl)
      · rw [if_neg isStop]
        by_cases isPad : state.skb.bytes (base + index) = 0
        · rw [if_pos isPad]
          refine (ih (by omega) lease).congr ?_
          tauto
        · rw [if_neg isPad]
          have next : base + (index + 1) + 1 ≤ state.skb.tail ↔ index + 1 < state.skb.tail - base := by
            omega
          refine .congr ?_ ((readField_guards (base + (index + 1)) _ state).bind_value fun _ =>
            (dhcpOption_guards inside).bind_same fun _ lease =>
              ih (by omega) lease)
          tauto

end Rucix.Net
