import Rucix.Lib.RadixTree.Model

namespace Rucix.Lib

open Rucix.Data Function

/-! The finite map below one node, which serves the indices below `64 ^ (height + 1)`.

Heights stay below 10, so no shift count reaches 64.
-/

variable {α : Type}

theorem offsetAt_eq_digit (low : height < 10) :
    offsetAt (height * radixTreeMapShift) index = digit 64 height index := by
  have shift : height * 6 % 64 = 6 * height := by
    rw [Nat.mul_comm]
    exact Nat.mod_eq_of_lt (by omega)
  have power : 2 ^ (6 * height) = 64 ^ height := by rw [Nat.pow_mul]
  apply Fin.ext
  simp only [offsetAt, radixTreeMapShift, shift]
  rw [Nat.shiftRight_eq_div_pow, power]
  exact Nat.and_two_pow_sub_one_eq_mod _ 6

theorem offsetAt_zero : offsetAt 0 index = digit 64 0 index :=
  offsetAt_eq_digit (show 0 < 10 by decide)

theorem insertOffset_eq_digit (low : height < 10) :
    insertOffset (height * radixTreeMapShift) index = digit 64 height index := by
  rw [insertOffset, if_neg (by simp only [radixTreeMapShift]; omega), offsetAt_eq_digit low]

theorem insertOffset_zero : insertOffset 0 index = digit 64 0 index :=
  insertOffset_eq_digit (show 0 < 10 by decide)

/-- Two indices with the same digits up to `height` take the same slots. -/
def SameKey (height left right : Nat) : Prop := left % 64 ^ (height + 1) = right % 64 ^ (height + 1)

instance (height left right : Nat) : Decidable (SameKey height left right) :=
  inferInstanceAs (Decidable (_ = _))

theorem sameKey_zero : SameKey 0 left right ↔ digit 64 0 left = digit 64 0 right := by
  rw [SameKey, mod_pow_succ_eq_iff]
  simp [Nat.mod_one]

theorem sameKey_succ :
    SameKey (height + 1) left right ↔
      digit 64 (height + 1) left = digit 64 (height + 1) right ∧ SameKey height left right :=
  mod_pow_succ_eq_iff

def Counted : (height : Nat) → RadixTreeNode (Subtree α height) → Prop
  | 0, node => node.count = occupied node.slots
  | height + 1, node =>
    node.count = occupied node.slots ∧
      ∀ slot child, node.slots slot = some child → Counted height child

/-- Every node counts its used slots and has one. -/
def Tight : (height : Nat) → RadixTreeNode (Subtree α height) → Prop
  | 0, node => node.count = occupied node.slots ∧ 0 < node.count
  | height + 1, node =>
    (node.count = occupied node.slots ∧ 0 < node.count) ∧
      ∀ slot child, node.slots slot = some child → Tight height child

theorem Counted.count_eq : {height : Nat} → {node : RadixTreeNode (Subtree α height)} →
    Counted height node → node.count = occupied node.slots
  | 0, _, counted => counted
  | _ + 1, _, counted => counted.1

theorem counted_empty : (height : Nat) →
    Counted height (emptyNode : RadixTreeNode (Subtree α height))
  | 0 => occupied_empty.symm
  | _ + 1 => ⟨occupied_empty.symm, fun _ _ stored => by cases stored⟩

theorem lookupIn_empty (index : Nat) :
    lookupIn index height (emptyNode : RadixTreeNode (Subtree α height)) = none := by
  cases height <;> rfl

theorem lookupIn_zero (node : RadixTreeNode (Subtree α 0)) (index : Nat) :
    lookupIn index 0 node = node.slots (digit 64 0 index) := by
  rw [lookupIn, offsetAt_zero]

theorem lookupIn_succ (low : height + 1 < 10) (node : RadixTreeNode (Subtree α (height + 1))) (index : Nat) :
    lookupIn index (height + 1) node =
      (node.slots (digit 64 (height + 1) index)).bind fun child => lookupIn index height child := by
  rw [lookupIn, offsetAt_eq_digit low]
  cases node.slots (digit 64 (height + 1) index) <;> rfl

theorem lookupIn_update (low : height + 1 < 10) (node : RadixTreeNode (Subtree α (height + 1))) (count : Nat)
    (other : Nat) :
    lookupIn other (height + 1)
        { count, slots := update node.slots (digit 64 (height + 1) index) child } =
      if digit 64 (height + 1) other = digit 64 (height + 1) index then
        child.bind fun child => lookupIn other height child
      else lookupIn other (height + 1) node := by
  rw [lookupIn_succ low, lookupIn_succ low]
  dsimp only
  split
  · rename_i same
    rw [same, update_self]
  · rename_i different
    rw [update_of_ne different]

section

variable {node : RadixTreeNode (Subtree α (height + 1))} {count : Nat} {slot : Fin radixTreeMapSize}
  {child : Option (RadixTreeNode (Subtree α height))} (occupancy : count = occupied (update node.slots slot child))
include occupancy

theorem Counted.update (counted : Counted (height + 1) node) (below : ∀ node ∈ child, Counted height node) :
    Counted (height + 1) { count, slots := update node.slots slot child } :=
  ⟨occupancy, forall_of_update counted.2 below⟩

theorem Tight.update (tight : Tight (height + 1) node ∨ node = emptyNode) (below : ∀ node ∈ child, Tight height node)
    (used : 0 < count) : Tight (height + 1) { count, slots := update node.slots slot child } := by
  refine ⟨⟨occupancy, used⟩, forall_of_update (fun other found stored => ?_) below⟩
  rcases tight with tight | rfl
  · exact tight.2 other found stored
  · cases stored

end

/-- The calls of `radix_tree_node_alloc` from number `first` up to `last` all
succeed. -/
def AllocsSucceed (allocs : Nat → Bool) (first last : Nat) : Prop :=
  ∀ call, first ≤ call → call < last → allocs call = true

theorem allocsSucceed_empty : AllocsSucceed allocs call call :=
  fun _ lower upper => absurd upper (by omega)

theorem allocsSucceed_cons (succeeded : allocs first = true) :
    AllocsSucceed allocs first last ↔ AllocsSucceed allocs (first + 1) last := by
  refine ⟨fun all call lower upper => all call (by omega) upper, fun rest call lower upper => ?_⟩
  rcases Nat.eq_or_lt_of_le lower with rfl | later
  · exact succeeded
  · exact rest call later upper

theorem not_allocsSucceed (failed : allocs first = false) (order : first < last) :
    ¬AllocsSucceed allocs first last := by
  intro all
  have succeeded := all first (Nat.le_refl _) order
  rw [failed] at succeeded
  cases succeeded

/-- What inserting `item` below a node does, whatever allocations fail. -/
structure InsertSpec (allocs : Nat → Bool) (index : Nat) (item : α) (height : Nat)
    (node : RadixTreeNode (Subtree α height)) (call : Nat)
    (result : Bool × RadixTreeNode (Subtree α height) × Nat) : Prop where
  counted : Counted height result.2.1
  calls : call ≤ result.2.2
  success : result.1 = true ↔
    lookupIn index height node = none ∧ AllocsSucceed allocs call result.2.2
  lookups : ∀ other, lookupIn other height result.2.1 =
    if result.1 = true ∧ SameKey height other index then some item else lookupIn other height node
  tight : Tight height node ∨ node = emptyNode → result.1 = true → Tight height result.2.1
  failed : (∀ call, allocs call = true) → result.1 = false → result.2.1 = node

theorem insertInto_spec (low : height < 10) (counted : Counted height node) (call : Nat) :
    InsertSpec allocs index item height node call (insertInto allocs index item height node call) := by
  induction height generalizing call with
  | zero =>
    have lookup := lookupIn_zero node index
    rw [insertInto, insertOffset_zero]
    cases stored : node.slots (digit 64 0 index) with
    | some existing =>
      rw [stored] at lookup
      exact ⟨counted, Nat.le_refl _, by simp [lookup], by simp, fun _ => nofun, fun _ _ => rfl⟩
    | none =>
      rw [stored] at lookup
      have count : node.count + 1 = occupied (update node.slots (digit 64 0 index) (some item)) := by
        rw [occupied_fill stored, counted.count_eq]
      refine ⟨count, Nat.le_refl _, ?_, fun other => ?_, fun _ _ => ⟨count, Nat.succ_pos _⟩, fun _ => nofun⟩
      · simp [lookup, allocsSucceed_empty]
      · rw [lookupIn_zero, lookupIn_zero]
        by_cases same : digit 64 0 other = digit 64 0 index
        · simp [sameKey_zero, same]
        · simp [sameKey_zero, same]
  | succ height ih =>
    have lookup := lookupIn_succ low node index
    rw [insertInto, insertOffset_eq_digit low]
    cases stored : node.slots (digit 64 (height + 1) index) with
    | some child =>
      rw [stored] at lookup
      have below := ih (by omega) (counted.2 _ _ stored) call
      have count := fun next => counted.count_eq.trans (occupied_replace stored next).symm
      refine ⟨?_, below.calls, ?_, fun other => ?_, fun tight inserted => ?_, fun allocated unchanged => ?_⟩
      · exact .update (count _) counted fun _ found => by cases found; exact below.counted
      · rw [lookup]
        exact below.success
      · have otherLookup := lookupIn_succ low node other
        rw [lookupIn_update low]
        by_cases same : digit 64 (height + 1) other = digit 64 (height + 1) index
        · rw [same, stored] at otherLookup
          simp only [Option.bind_some, below.lookups, sameKey_succ, same, true_and, if_true,
            otherLookup]
        · simp [same, sameKey_succ]
      · have inner : Tight height child := by
          rcases tight with tight | rfl
          · exact tight.2 _ _ stored
          · cases stored
        refine .update (count _) tight (fun _ found => by cases found; exact below.tight (.inl inner) inserted) ?_
        rw [counted.count_eq]
        exact occupied_pos stored
      · simp only [below.failed allocated unchanged, ← stored, update_eq_self]
    | none =>
      rw [stored, Option.bind_none] at lookup
      cases allocated : allocs call with
      | false =>
        refine ⟨counted, Nat.le_succ _, ?_, by simp, fun _ => nofun, fun all => ?_⟩
        · simp [not_allocsSucceed allocated (Nat.lt_succ_self call)]
        · cases allocated.symm.trans (all call)
      | true =>
        have below := ih (by omega) (counted_empty height) (call + 1)
        have order := below.calls
        have count := fun next => (congrArg (· + 1) counted.count_eq).trans (occupied_fill stored next).symm
        rw [if_pos rfl]
        refine ⟨?_, Nat.le_of_succ_le order, ?_, fun other => ?_, fun tight inserted => ?_, fun all failed => ?_⟩
        · exact .update (count _) counted fun _ found => by cases found; exact below.counted
        · rw [lookup, allocsSucceed_cons allocated, below.success, lookupIn_empty]
        · have otherLookup := lookupIn_succ low node other
          rw [lookupIn_update low]
          by_cases same : digit 64 (height + 1) other = digit 64 (height + 1) index
          · rw [same, stored, Option.bind_none] at otherLookup
            simp only [Option.bind_some, below.lookups, sameKey_succ, same, true_and, if_true,
              otherLookup, lookupIn_empty]
          · simp [same, sameKey_succ]
        · refine .update (count _) tight (fun _ found => ?_) (Nat.succ_pos _)
          cases found
          exact below.tight (.inr rfl) inserted
        · have inserted := below.success.mpr ⟨lookupIn_empty index, fun _ _ _ => all _⟩
          cases inserted.symm.trans failed

/-- What deleting below a node does: `rest` is what remains of the node. -/
structure DeleteSpec (index height : Nat) (node : RadixTreeNode (Subtree α height)) (item : α)
    (rest : Option (RadixTreeNode (Subtree α height))) : Prop where
  found : lookupIn index height node = some item
  counted : ∀ node ∈ rest, Counted height node
  tight : Tight height node → ∀ node ∈ rest, Tight height node
  lookups : ∀ other, (rest.bind fun node => lookupIn other height node) =
    if SameKey height other index then none else lookupIn other height node

theorem lookupIn_eq_none_of_count {node : RadixTreeNode (Subtree α height)} (low : height < 10)
    (counted : Counted height node) (empty : node.count = 0) : lookupIn index height node = none := by
  rw [counted.count_eq] at empty
  cases height with
  | zero => rw [lookupIn_zero, occupied_eq_zero empty]
  | succ height => rw [lookupIn_succ low, occupied_eq_zero empty, Option.bind_none]

/-- A node without used slots is freed. -/
theorem DeleteSpec.prune (low : height < 10) (after : RadixTreeNode (Subtree α height))
    (found : lookupIn index height node = some item) (counted : Counted height after)
    (tight : Tight height node → 0 < after.count → Tight height after)
    (lookups : ∀ other, lookupIn other height after =
      if SameKey height other index then none else lookupIn other height node) :
    DeleteSpec index height node item (if 0 < after.count then some after else none) := by
  split
  · rename_i used
    exact ⟨found, fun _ same => by cases same; exact counted, fun whole _ same => by cases same; exact tight whole used,
      lookups⟩
  · refine ⟨found, nofun, fun _ => nofun, fun other => ?_⟩
    rw [← lookups, lookupIn_eq_none_of_count low counted (by omega), Option.bind_none]

theorem DeleteSpec.parent (low : height + 1 < 10) (counted : Counted (height + 1) node)
    (stored : node.slots (digit 64 (height + 1) index) = some child) (below : DeleteSpec index height child item rest)
    (occupancy : count = occupied (update node.slots (digit 64 (height + 1) index) rest)) :
    DeleteSpec index (height + 1) node item (if 0 < count then some {
      count, slots := update node.slots (digit 64 (height + 1) index) rest } else none) := by
  refine .prune low _ ?_ (.update occupancy counted below.counted)
    (fun whole => .update occupancy (.inl whole) (below.tight (whole.2 _ _ stored))) fun other => ?_
  · rw [lookupIn_succ low, stored]
    exact below.found
  · have otherLookup := lookupIn_succ low node other
    rw [lookupIn_update low]
    by_cases same : digit 64 (height + 1) other = digit 64 (height + 1) index
    · rw [same, stored] at otherLookup
      simp only [below.lookups, sameKey_succ, same, true_and, if_true, otherLookup, Option.bind_some]
    · simp [same, sameKey_succ]

theorem deleteFrom_spec (low : height < 10) {node : RadixTreeNode (Subtree α height)} (counted : Counted height node)
    (index : Nat) :
    match deleteFrom index height node with
    | none => lookupIn index height node = none
    | some (item, rest) => DeleteSpec index height node item rest := by
  induction height with
  | zero =>
    have lookup := lookupIn_zero node index
    rw [deleteFrom, offsetAt_zero]
    cases stored : node.slots (digit 64 0 index) with
    | none =>
      rw [stored] at lookup
      exact lookup
    | some item =>
      rw [stored] at lookup
      have count : node.count - 1 = occupied (update node.slots (digit 64 0 index) none) := by
        rw [counted.count_eq, ← occupied_release stored, Nat.add_sub_cancel]
      refine .prune low ⟨node.count - 1, update node.slots _ none⟩ lookup count
        (fun _ used => ⟨count, used⟩) fun other => ?_
      rw [lookupIn_zero, lookupIn_zero]
      by_cases same : digit 64 0 other = digit 64 0 index
      · simp [sameKey_zero, same]
      · simp [sameKey_zero, same]
  | succ height ih =>
    have lookup := lookupIn_succ low node index
    rw [deleteFrom, offsetAt_eq_digit low]
    cases stored : node.slots (digit 64 (height + 1) index) with
    | none =>
      rw [stored] at lookup
      exact lookup
    | some child =>
      rw [stored] at lookup
      have below := ih (by omega) (counted.2 _ _ stored)
      have count := counted.count_eq
      have released := occupied_release stored
      cases removed : deleteFrom index height child with
      | none =>
        rw [removed] at below
        simp only [removed]
        exact lookup.trans below
      | some found =>
        obtain ⟨item, rest⟩ := found
        rw [removed] at below
        cases rest with
        | some after =>
          have spec := below.parent low counted stored (count.trans (occupied_replace stored after).symm)
          rw [if_pos (by omega)] at spec
          simp only [removed]
          exact spec
        | none =>
          simp only [removed]
          exact below.parent low counted stored (by omega)

end Rucix.Lib
