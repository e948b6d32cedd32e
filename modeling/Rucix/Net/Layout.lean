import Rucix.Data.Run
import Rucix.Net.Send

namespace Rucix.Net

open Rucix.Data

/-! Sequences of operations on the pointers of a buffer.

`skb_put`, `skb_push` and `skb_reserve` move the pointers before they test them, and
leave them there when the test fails.
-/

inductive SkbOp where
  | reserve (len : UInt32)
  | put (len : UInt32)
  | push (len : UInt32)
  | pull (len : UInt32)

/-- `skb_pull` of a buffer that is to be sent. -/
def txPull (len : Nat) : Tx (Option Nat) := do
  let before := (← get).layout
  if before.len < len then return none
  else do
    relayout fun layout => { layout with data := layout.data + len, len := layout.len - len }
    return some before.data.toNat

def SkbOp.call : SkbOp → Tx (Option Nat)
  | .reserve len => do
    skbReserve len.toNat
    return none
  | .put len => skbPut len.toNat
  | .push len => skbPush len.toNat
  | .pull len => txPull len.toNat

/-- Space is reserved while the buffer is empty, and there is room for the bytes.  A pull
may ask for any number. -/
def SkbOp.Permitted (layout : Layout) : SkbOp → Prop
  | .reserve len => layout.len = 0 ∧ layout.tail + len.toNat ≤ layout.stop
  | .put len => layout.tail + len.toNat ≤ layout.stop
  | .push len => len.toNat ≤ layout.data
  | .pull _ => True

def SkbStep (before : TxBuff) (op : SkbOp) (after : TxBuff) : Prop :=
  op.Permitted before.layout ∧ ∃ pointer, op.call.run before = .ok (pointer, after)

variable {before after skb : TxBuff} {op : SkbOp}

theorem txPull_cases (done : (txPull len).run before = .ok (pointer, after)) :
    before.layout.len < len ∧ after = before ∨ len ≤ before.layout.len ∧
      after.layout = { before.layout with data := before.layout.data + len, len := before.layout.len - len } := by
  by_cases short : before.layout.len < len
  · simp [txPull, short] at done
    cases done
    exact .inl ⟨short, rfl⟩
  · simp [txPull, short] at done
    cases done
    exact .inr ⟨Nat.le_of_not_lt short, rfl⟩

theorem SkbStep.keeps (step : SkbStep before op after)
    (sound : before.layout.Ordered ∧ before.layout.stop < 2 ^ 32) :
    after.layout.Ordered ∧ after.layout.stop < 2 ^ 32 := by
  obtain ⟨permitted, pointer, done⟩ := step
  have inOrder := sound
  obtain ⟨⟨head, data, tail, size⟩, bound⟩ := sound
  have fit : ∀ len : UInt32, before.layout.len + len.toNat < 2 ^ 32 →
      wrap 32 (before.layout.len + len.toNat) = before.layout.len + len.toNat := fun _ => wrap_of_lt
  cases op with
  | reserve len =>
    obtain ⟨empty, room⟩ := permitted
    cases done
    refine ⟨⟨?_, ?_, ?_, ?_⟩, bound⟩ <;> simp only <;> omega
  | put len | push len =>
    cases done
    simp only [SkbOp.Permitted] at permitted
    refine ⟨⟨?_, ?_, ?_, ?_⟩, bound⟩ <;> simp only [fit len (by omega)] <;> omega
  | pull len =>
    rcases txPull_cases done with ⟨-, rfl⟩ | ⟨enough, moved⟩
    · exact inOrder
    · rw [moved]
      refine ⟨⟨?_, ?_, ?_, ?_⟩, bound⟩ <;> simp only <;> omega

/-- As long as there is room, the pointers are in order; a pull of too many bytes changes
nothing. -/
theorem permitted_ops_keep_order {memory : Block} {size : UInt32} {trace : List SkbOp}
    (run : Run SkbStep (allocSkb memory size.toNat) trace skb) :
    skb.layout.Ordered ∧ ∀ len after, skb.layout.len < len.toNat → SkbStep skb (.pull len) after → after = skb := by
  have small := size.toNat_lt
  have sound : skb.layout.Ordered ∧ skb.layout.stop < 2 ^ 32 :=
    run.invariant ⟨⟨le_rfl, le_rfl, by simp [allocSkb], rfl⟩, by simp only [allocSkb]; omega⟩
      fun _ _ _ sound step => step.keeps sound
  refine ⟨sound.1, fun len after short step => ?_⟩
  obtain ⟨-, pointer, done⟩ := step
  rcases txPull_cases done with ⟨-, same⟩ | ⟨enough, -⟩
  · exact same
  · omega

theorem permitted_ops_keep_order_all : ∃ skb,
    Run SkbStep (allocSkb Block.zero 64) [.reserve 16, .put 20, .push 8, .pull 4] skb ∧
      skb.layout.Ordered ∧ skb.layout.len = 24 := by
  have run : Run SkbStep (allocSkb Block.zero (64 : UInt32).toNat) [.reserve 16, .put 20, .push 8, .pull 4] _ :=
    .snoc (.snoc (.snoc (.snoc .nil ⟨⟨rfl, by decide⟩, none, rfl⟩) ⟨show _ ≤ _ by decide, _, rfl⟩)
      ⟨show _ ≤ _ by decide, _, rfl⟩) ⟨trivial, _, rfl⟩
  exact ⟨_, run, (permitted_ops_keep_order run).1, rfl⟩

theorem put_past_end_moves_tail : ∃ after, (skbPut 5).run (allocSkb Block.zero 4) = .ok (none, after) ∧
    after ≠ allocSkb Block.zero 4 ∧ ¬ after.layout.Ordered := by
  refine ⟨_, rfl, fun same => ?_, fun ordered => absurd ordered.tail_le (by decide)⟩
  exact absurd (congrArg (fun skb => skb.layout.len) same) (by decide)

end Rucix.Net
