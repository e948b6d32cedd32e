import Rucix.Memory.Heap.Model

namespace Rucix.Memory

open Rucix.Data Function

/-! Heap layouts: the list of block sizes and states in address order, from which the
headers of a well-formed heap follow.
-/

structure Chunk where
  size : Nat
  free : Bool
deriving DecidableEq, Repr

namespace Layout

def finish : Nat → List Chunk → Nat
  | start, [] => start
  | start, chunk :: rest => finish (start + heapBlockSize + chunk.size) rest

def last : (prev start : Nat) → List Chunk → Nat
  | prev, _, [] => prev
  | _, start, chunk :: rest => last start (start + heapBlockSize + chunk.size) rest

/-- The pointer to the blocks `rest`, which start at `addr`: the pointer
`after` if there are none. -/
def link (addr after : Nat) : List Chunk → Nat
  | [] => after
  | _ :: _ => addr

def header (prev next : Nat) (chunk : Chunk) : HeapBlock where
  size := chunk.size
  next := next
  prev := prev
  free := chunk.free
  magic := heapMagic

/-- The headers of `chunks` lie in memory one behind the other from `start` on,
linked in both directions. -/
def Stored (blocks : Nat → HeapBlock) : (prev start : Nat) → List Chunk → (after : Nat) → Prop
  | _, _, [], _ => True
  | prev, start, chunk :: rest, after =>
    blocks start = header prev (link (start + heapBlockSize + chunk.size) after rest) chunk ∧
      Stored blocks start (start + heapBlockSize + chunk.size) rest after

def Block (addr : Nat) (chunk : Chunk) : Nat → List Chunk → Prop
  | _, [] => False
  | start, first :: rest =>
    addr = start ∧ chunk = first ∨ Block addr chunk (start + heapBlockSize + first.size) rest

theorem finish_append (start : Nat) :
    finish start (left ++ right) = finish (finish start left) right := by
  induction left generalizing start with
  | nil => rfl
  | cons chunk rest ih => exact ih _

theorem last_append (prev start : Nat) (right : List Chunk) :
    last prev start (left ++ right) = last (last prev start left) (finish start left) right := by
  induction left generalizing prev start with
  | nil => rfl
  | cons chunk rest ih => exact ih _ _

theorem link_append :
    link addr after (left ++ right) = link addr (link (finish addr left) after right) left := by
  cases left with
  | nil => cases right <;> rfl
  | cons chunk rest => rfl

theorem le_finish (start : Nat) (chunks : List Chunk) : start ≤ finish start chunks := by
  induction chunks generalizing start with
  | nil => exact Nat.le_refl _
  | cons chunk rest ih => exact Nat.le_trans (by omega) (ih _)

theorem stored_append : Stored blocks prev start (left ++ right) after ↔
      Stored blocks prev start left (link (finish start left) after right) ∧
        Stored blocks (last prev start left) (finish start left) right after := by
  induction left generalizing prev start with
  | nil => simp [Stored, finish, last]
  | cons chunk rest ih =>
    simp only [List.cons_append, Stored, finish, last, ih, link_append, and_assoc]

theorem Stored.frame (stored : Stored blocks prev start left after)
    (same : ∀ addr, start ≤ addr → addr < finish start left → other addr = blocks addr) :
    Stored other prev start left after := by
  induction left generalizing prev start with
  | nil => trivial
  | cons chunk rest ih =>
    have tail := le_finish (start + heapBlockSize + chunk.size) rest
    have room : 0 < heapBlockSize := by decide
    refine ⟨?_, ih stored.2 fun addr lower upper => same addr (by omega) upper⟩
    rw [same start (Nat.le_refl _) (by simp only [finish]; omega), stored.1]

theorem Stored.update_outside (stored : Stored blocks prev start left after)
    (outside : addr < start ∨ finish start left ≤ addr) :
    Stored (update blocks addr block) prev start left after := by
  apply stored.frame
  intro other lower upper
  exact update_of_ne (by omega) _ _

theorem Stored.relink (stored : Stored blocks prev start (chunk :: rest) after) :
    Stored (update blocks start { blocks start with prev := newPrev }) newPrev start
      (chunk :: rest) after := by
  refine ⟨?_, stored.2.update_outside (.inl ?_)⟩
  · rw [update_self, stored.1]
    rfl
  · simp only [heapBlockSize]
    omega

theorem block_append : Block addr chunk start (left ++ right) ↔
      Block addr chunk start left ∨ Block addr chunk (finish start left) right := by
  induction left generalizing start with
  | nil => simp [Block, finish]
  | cons first rest ih => simp only [List.cons_append, Block, finish, ih, or_assoc]

section

variable (block : Block addr chunk start chunks)
include block

theorem Block.bounds : start ≤ addr ∧ addr + heapBlockSize + chunk.size ≤ finish start chunks := by
  induction chunks generalizing start with
  | nil => exact block.elim
  | cons first rest ih =>
    rcases block with ⟨rfl, rfl⟩ | later
    · exact ⟨Nat.le_refl _, le_finish _ rest⟩
    · obtain ⟨lower, upper⟩ := ih later
      exact ⟨by omega, upper⟩

theorem Block.separate (second : Block other neighbour start chunks) (different : addr ≠ other) :
    addr + heapBlockSize + chunk.size ≤ other ∨
      other + heapBlockSize + neighbour.size ≤ addr := by
  induction chunks generalizing start with
  | nil => exact block.elim
  | cons first rest ih =>
    rcases block with ⟨rfl, rfl⟩ | later
    · rcases second with ⟨rfl, rfl⟩ | beyond
      · exact absurd rfl different
      · exact .inl beyond.bounds.1
    · rcases second with ⟨rfl, rfl⟩ | beyond
      · exact .inr later.bounds.1
      · exact ih later beyond

theorem Block.unique (again : Block addr second start chunks) : chunk = second := by
  induction chunks generalizing start with
  | nil => exact block.elim
  | cons first rest ih =>
    have room : 0 < heapBlockSize := by decide
    rcases block with ⟨here, rfl⟩ | later
    · rcases again with ⟨-, rfl⟩ | beyond
      · rfl
      · have := beyond.bounds.1
        omega
    · rcases again with ⟨here, rfl⟩ | beyond
      · have := later.bounds.1
        omega
      · exact ih later beyond

end

theorem Stored.header_at (stored : Stored blocks prev start chunks after) (block : Block addr chunk start chunks) :
    (blocks addr).size = chunk.size ∧ (blocks addr).free = chunk.free ∧
      (blocks addr).magic = heapMagic := by
  induction chunks generalizing prev start with
  | nil => exact block.elim
  | cons first rest ih =>
    rcases block with ⟨rfl, rfl⟩ | later
    · rw [stored.1]
      exact ⟨rfl, rfl, rfl⟩
    · exact ih stored.2 later

theorem Block.split (block : Block addr chunk start chunks) :
    ∃ before behind, chunks = before ++ chunk :: behind ∧ addr = finish start before := by
  induction chunks generalizing start with
  | nil => exact block.elim
  | cons first rest ih =>
    rcases block with ⟨rfl, rfl⟩ | later
    · exact ⟨[], rest, rfl, rfl⟩
    · obtain ⟨before, behind, rfl, rfl⟩ := ih later
      exact ⟨first :: before, behind, rfl, rfl⟩

end Layout

end Rucix.Memory
