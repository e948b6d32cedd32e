import Mathlib.Order.Lattice.Nat
import Rucix.Lib.RadixTree.Map

namespace Rucix.Lib

open Rucix.Data Function

/-! The shape of the tree is determined by the map it holds, as long as every
allocation succeeds. -/

variable {α : Type} {allocs : Nat → Bool} {index height call fuel : Nat} {item : α}
  {root : RadixTreeRoot α}

theorem lookupIn_congr (low : height < 10) (same : SameKey height left right)
    (node : RadixTreeNode (Subtree α height)) : lookupIn left height node = lookupIn right height node := by
  induction height with
  | zero => rw [lookupIn_zero, lookupIn_zero, sameKey_zero.mp same]
  | succ height ih =>
    obtain ⟨digits, rest⟩ := sameKey_succ.mp same
    rw [lookupIn_succ low, lookupIn_succ low, digits]
    congr 1
    funext child
    exact ih (by omega) rest child

section

variable {node : RadixTreeNode (Subtree α height)} (tight : Tight height node)
include tight

theorem Tight.count_eq : node.count = occupied node.slots := by
  cases height with
  | zero => exact tight.1
  | succ height => exact tight.1.1

theorem Tight.count_pos : 0 < node.count := by
  cases height with
  | zero => exact tight.2
  | succ height => exact tight.1.2

theorem Tight.counted : Counted height node := by
  induction height with
  | zero => exact tight.1
  | succ height ih => exact ⟨tight.1.1, fun slot child stored => ih (tight.2 slot child stored)⟩

end

theorem lookupIn_child (low : height + 1 < 10) {node : RadixTreeNode (Subtree α (height + 1))} {slot : Fin 64}
    {child : RadixTreeNode (Subtree α height)} (stored : node.slots slot = some child) {key : Nat}
    (bound : key < 64 ^ (height + 1)) :
    lookupIn (slot.val * 64 ^ (height + 1) + key) (height + 1) node = lookupIn key height child := by
  rw [lookupIn_succ low, digit_mul_add bound, stored]
  refine lookupIn_congr (by omega) ?_ child
  rw [SameKey, Nat.mul_comm, Nat.mul_add_mod]

theorem Tight.exists_slot {node : RadixTreeNode (Subtree α height)} (tight : Tight height node) :
    ∃ slot child, node.slots slot = some child :=
  exists_of_occupied_pos (tight.count_eq ▸ tight.count_pos)

theorem Tight.exists_key {node : RadixTreeNode (Subtree α height)} (low : height < 10) (tight : Tight height node) :
    ∃ key, key < 64 ^ (height + 1) ∧ lookupIn key height node ≠ none := by
  induction height with
  | zero =>
    obtain ⟨slot, child, stored⟩ := tight.exists_slot
    refine ⟨slot.val * 64 ^ 0 + 0, mul_add_lt_pow slot (by decide), ?_⟩
    rw [lookupIn_zero, digit_mul_add (by decide), stored]
    simp
  | succ height ih =>
    obtain ⟨slot, child, stored⟩ := tight.exists_slot
    obtain ⟨key, bound, present⟩ := ih (by omega) (tight.2 slot child stored)
    refine ⟨slot.val * 64 ^ (height + 1) + key, mul_add_lt_pow slot bound, ?_⟩
    rw [lookupIn_child low stored bound]
    exact present

theorem Tight.eq_of_slots {first second : RadixTreeNode (Subtree α height)} (tight : Tight height first)
    (other : Tight height second) (slots : first.slots = second.slots) : first = second := by
  obtain ⟨firstCount, firstSlots⟩ := first
  obtain ⟨secondCount, secondSlots⟩ := second
  cases slots
  have counts : firstCount = secondCount := tight.count_eq.trans other.count_eq.symm
  rw [counts]

theorem Tight.exists_stored {first second : RadixTreeNode (Subtree α (height + 1))} (low : height + 1 < 10)
    (tight : Tight (height + 1) first) (same : ∀ key, key < 64 ^ (height + 2) →
      lookupIn key (height + 1) first = lookupIn key (height + 1) second) {slot : Fin 64}
    {child : RadixTreeNode (Subtree α height)} (stored : first.slots slot = some child) :
    ∃ other, second.slots slot = some other := by
  have below : Tight height child := tight.2 slot child stored
  obtain ⟨key, bound, present⟩ := below.exists_key (by omega)
  have equal := same _ (mul_add_lt_pow slot bound)
  rw [lookupIn_child low stored bound, lookupIn_succ low, digit_mul_add bound] at equal
  cases found : second.slots slot with
  | none =>
    rw [found] at equal
    exact absurd equal present
  | some other => exact ⟨other, rfl⟩

theorem Tight.ext {first second : RadixTreeNode (Subtree α height)} (low : height < 10) (tight : Tight height first)
    (other : Tight height second)
    (same : ∀ key, key < 64 ^ (height + 1) → lookupIn key height first = lookupIn key height second) :
    first = second := by
  induction height with
  | zero =>
    refine tight.eq_of_slots other (funext fun slot => ?_)
    have equal := same _ (mul_add_lt_pow slot (show 0 < 64 ^ 0 by decide))
    rwa [lookupIn_zero, lookupIn_zero, digit_mul_add (by decide)] at equal
  | succ height ih =>
    refine tight.eq_of_slots other (funext fun slot => ?_)
    cases stored : first.slots slot with
    | none =>
      cases found : second.slots slot with
      | none => rfl
      | some child =>
        obtain ⟨_, impossible⟩ :=
          other.exists_stored low (fun key bound => (same key bound).symm) found
        cases stored.symm.trans impossible
    | some child =>
      obtain ⟨child', found⟩ := tight.exists_stored low same stored
      rw [found]
      congr 1
      refine ih (by omega) (tight.2 slot child stored) (other.2 slot child' found) fun key bound => ?_
      have equal := same _ (mul_add_lt_pow slot bound)
      rwa [lookupIn_child low stored bound, lookupIn_child low found bound] at equal

/-- No node is empty, and the tree is no taller than its largest key needs. -/
structure RadixTreeRoot.Canonical (root : RadixTreeRoot α) : Prop where
  valid : root.Valid
  tight : root.Tight
  reached : 1 < root.height →
    ∃ key, 64 ^ (root.height - 1) ≤ key ∧ radixTreeLookup root key ≠ none

theorem RadixTreeRoot.Valid.lt_of_lookup (valid : root.Valid) (present : radixTreeLookup root key ≠ none) :
    key < 64 ^ root.height := by
  obtain ⟨_ | height, rnode⟩ := root
  · exact absurd rfl present
  · cases rnode with
    | none => exact absurd rfl present
    | some node =>
      rw [radixTreeLookup_node valid.1] at present
      by_contra outside
      exact present (if_neg outside)

namespace RadixTreeRoot.Canonical

theorem exists_key (canonical : root.Canonical) (used : 0 < root.height) :
    ∃ key, radixTreeLookup root key ≠ none := by
  obtain ⟨valid, tight, -⟩ := canonical
  obtain ⟨_ | height, rnode⟩ := root
  · exact absurd used (Nat.lt_irrefl 0)
  · cases rnode with
    | none => exact tight.elim
    | some node =>
      obtain ⟨key, bound, present⟩ := Lib.Tight.exists_key valid.1 tight
      refine ⟨key, ?_⟩
      rw [radixTreeLookup_node valid.1, if_pos bound]
      exact present

theorem init : (radixTreeInit : RadixTreeRoot α).Canonical :=
  ⟨rfl, rfl, fun tall => absurd tall (Nat.not_lt_zero 1)⟩

variable {first second : RadixTreeRoot α}

section

variable (canonical : first.Canonical) (other : second.Canonical)
  (same : ∀ key, radixTreeLookup first key = radixTreeLookup second key)
include canonical other same

theorem height_le : first.height ≤ second.height := by
  by_contra taller
  rcases Nat.lt_or_ge 1 first.height with tall | short
  · obtain ⟨key, large, present⟩ := canonical.reached tall
    rw [same] at present
    have bound := other.valid.lt_of_lookup present
    have wide : 64 ^ second.height ≤ 64 ^ (first.height - 1) :=
      Nat.pow_le_pow_right (by decide) (by omega)
    omega
  · obtain ⟨key, present⟩ := canonical.exists_key (by omega)
    rw [same] at present
    obtain ⟨_ | height, rnode⟩ := second
    · exact present rfl
    · simp only at taller
      omega

theorem ext : first = second := by
  have heights : first.height = second.height :=
    Nat.le_antisymm (canonical.height_le other same)
      (other.height_le canonical fun key => (same key).symm)
  obtain ⟨firstValid, firstTight, -⟩ := canonical
  obtain ⟨secondValid, secondTight, -⟩ := other
  obtain ⟨height, firstNode⟩ := first
  obtain ⟨other, secondNode⟩ := second
  subst heights
  cases height with
  | zero => rw [show firstNode = none from firstTight, show secondNode = none from secondTight]
  | succ height =>
    cases firstNode with
    | none => exact firstTight.elim
    | some node =>
      cases secondNode with
      | none => exact secondTight.elim
      | some node' =>
        have equal : node = node' :=
          Lib.Tight.ext firstValid.1 firstTight secondTight fun key bound => by
            have lookups := same key
            rwa [radixTreeLookup_node firstValid.1, radixTreeLookup_node secondValid.1,
              if_pos bound, if_pos bound] at lookups
        rw [equal]

end

theorem height_eq (canonical : root.Canonical) (largest : IsGreatest { key | radixTreeLookup root key ≠ none } key) :
    root.height = max 1 (Nat.digits 64 key).length := by
  have present : radixTreeLookup root key ≠ none := largest.1
  have bound := canonical.valid.lt_of_lookup present
  have digits := (Nat.digits_length_le_iff (by decide : 1 < 64) key).mpr bound
  have positive : 0 < root.height := by
    obtain ⟨_ | height, rnode⟩ := root
    · exact absurd rfl present
    · exact Nat.succ_pos _
  rcases Nat.lt_or_ge 1 root.height with tall | short
  · obtain ⟨other, large, stored⟩ := canonical.reached tall
    have above : 64 ^ (root.height - 1) ≤ key := large.trans (largest.2 stored)
    have longer : root.height - 1 < (Nat.digits 64 key).length := by
      by_contra shorter
      have small := (Nat.digits_length_le_iff (by decide : 1 < 64) key).mp (Nat.le_of_not_lt shorter)
      omega
    omega
  · omega

theorem exists_greatest (canonical : root.Canonical) (used : 0 < root.height) :
    ∃ key, IsGreatest { key | radixTreeLookup root key ≠ none } key := by
  have bounded : BddAbove { key | radixTreeLookup root key ≠ none } :=
    ⟨64 ^ root.height, fun key present => (canonical.valid.lt_of_lookup present).le⟩
  exact ⟨_, Nat.sSup_mem (canonical.exists_key used) bounded, fun key present => le_csSup bounded present⟩

end RadixTreeRoot.Canonical

theorem exists_large_key (low : height + 1 < 10) {node : RadixTreeNode (Subtree α (height + 1))}
    (tight : Tight (height + 1) node) {slot : Fin 64} {child : RadixTreeNode (Subtree α height)} (nonzero : slot ≠ 0)
    (stored : node.slots slot = some child) :
    ∃ key, 64 ^ (height + 1) ≤ key ∧ radixTreeLookup ⟨height + 2, some node⟩ key ≠ none := by
  have below : Tight height child := tight.2 slot child stored
  obtain ⟨key, bound, present⟩ := below.exists_key (by omega)
  have positive : 1 ≤ slot.val := Nat.one_le_iff_ne_zero.mpr fun zero => nonzero (Fin.ext zero)
  refine ⟨slot.val * 64 ^ (height + 1) + key, ?_, ?_⟩
  · exact (Nat.le_mul_of_pos_left _ positive).trans (Nat.le_add_right ..)
  · rw [radixTreeLookup_node low, if_pos (mul_add_lt_pow slot bound), lookupIn_child low stored bound]
    exact present

theorem shrinkNode_canonical (low : height < 10) {node : RadixTreeNode (Subtree α height)} (tight : Tight height node) :
    (shrinkNode height node).Canonical := by
  induction height with
  | zero => exact ⟨⟨low, tight.counted⟩, tight, fun tall => absurd tall (Nat.lt_irrefl 1)⟩
  | succ height ih =>
    have used : 0 < occupied node.slots := tight.count_eq ▸ tight.count_pos
    have unchanged : occupied node.slots ≠ 1 ∨ node.slots 0 = none →
        RadixTreeRoot.Canonical ⟨height + 2, some node⟩ := by
      intro more
      obtain ⟨slot, child, nonzero, stored⟩ := exists_other_of_occupied used more
      exact ⟨⟨low, tight.counted⟩, tight, fun _ => exists_large_key low tight nonzero stored⟩
    rw [shrinkNode]
    split
    · cases first : node.slots 0 with
      | none => exact unchanged (.inr first)
      | some child => exact ih (by omega) (tight.2 0 child first)
    · rename_i several
      exact unchanged (.inl (tight.count_eq ▸ several))

theorem radixTreeDelete_canonical (canonical : root.Canonical) (index : Nat) :
    (radixTreeDelete root index).2.Canonical := by
  obtain ⟨_ | height, rnode⟩ := root
  · exact canonical
  · cases rnode with
    | none => exact canonical
    | some node =>
      have low : height < 10 := canonical.valid.1
      have tight : Tight height node := canonical.tight
      rw [radixTreeDelete]
      split
      · exact canonical
      · cases removed : deleteFrom index height node with
        | none => exact canonical
        | some found =>
          obtain ⟨item, rest⟩ := found
          have spec := deleteFrom_spec low canonical.valid.2 index
          rw [removed] at spec
          cases rest with
          | none => exact .init
          | some rest => exact shrinkNode_canonical low (spec.tight tight rest rfl)

section

variable (canonical : root.Canonical)
include canonical

/-- Without a failed allocation, an insertion fails only where the key is
present, and then leaves the tree as it is. -/
theorem radixTreeInsert_failed (bounded : index < 64 ^ 10) (allocated : ∀ call, allocs call = true)
    (returned : radixTreeInsert allocs fuel root index item = some (false, after, calls)) : after = root := by
  have spec := radixTreeInsert_spec canonical.valid bounded returned
  have present : radixTreeLookup root index ≠ none := fun absent => by
    have inserted := spec.success.mpr ⟨absent, fun _ _ _ => allocated _⟩
    cases inserted
  have inside := canonical.valid.lt_of_lookup present
  obtain ⟨_ | height, rnode⟩ := root
  · exact absurd rfl present
  · cases rnode with
    | none => exact absurd rfl present
    | some node =>
      have low := canonical.valid.1
      have covered : ¬ maxIndex (height + 1) < index := by
        rw [maxIndex_lt_iff low]
        exact Nat.not_le.mpr inside
      have prepared : RadixTreeRoot.prepare ⟨height + 1, some node⟩ index = ⟨height + 1, some node⟩ := rfl
      rw [radixTreeInsert_eq, prepared, if_neg covered, insertRoot, Option.some.injEq] at returned
      simp only [Prod.mk.injEq] at returned
      obtain ⟨failed, rfl, -⟩ := returned
      rw [(insertInto_spec low canonical.valid.2 0).failed allocated failed]

theorem radixTreeInsert_canonical (bounded : index < 64 ^ 10) (allocated : ∀ call, allocs call = true)
    (returned : radixTreeInsert allocs fuel root index item = some (inserted, after, calls)) : after.Canonical := by
  cases inserted with
  | false =>
    rw [radixTreeInsert_failed canonical bounded allocated returned]
    exact canonical
  | true =>
    have spec := radixTreeInsert_spec canonical.valid bounded returned
    have lookups : ∀ other, radixTreeLookup after other =
        if other = index then some item else radixTreeLookup root other := by
      simpa using spec.lookups
    refine ⟨spec.valid, spec.tight (.inl canonical.tight) rfl, fun tall => ?_⟩
    rcases spec.height tall rfl with same | large
    · rw [same] at tall ⊢
      obtain ⟨key, large, present⟩ := canonical.reached tall
      refine ⟨key, large, ?_⟩
      rw [lookups]
      split
      · simp
      · exact present
    · exact ⟨index, large, by simp [lookups]⟩

end

/-- Calls of `radix_tree_insert` and `radix_tree_delete` whose node allocations
all succeed. -/
inductive AllocatedStep : RadixTreeRoot α → RadixOp α → RadixTreeRoot α → Prop where
  | insert {root after : RadixTreeRoot α} {index fuel calls : Nat} {item : α} {inserted : Bool}
      (bounded : index < 2 ^ 60)
      (returned : radixTreeInsert (fun _ => true) fuel root index item = some (inserted, after, calls)) :
      AllocatedStep root (.insert index item inserted) after
  | delete {root after : RadixTreeRoot α} {index : Nat} {found : Option α}
      (bounded : index < 2 ^ 60) (returned : radixTreeDelete root index = (found, after)) :
      AllocatedStep root (.delete index found) after

theorem AllocatedStep.radixStep (stepped : AllocatedStep root op after) : RadixStep root op after := by
  cases stepped with
  | insert bounded returned => exact .insert bounded returned
  | delete bounded returned => exact .delete bounded returned

theorem AllocatedStep.canonical (canonical : root.Canonical) (stepped : AllocatedStep root op after) :
    after.Canonical := by
  cases stepped with
  | insert bounded returned => exact radixTreeInsert_canonical canonical bounded (fun _ => rfl) returned
  | delete _ returned =>
    rename_i index _ _
    have result := radixTreeDelete_canonical canonical index
    rwa [returned] at result

theorem allocatedRun_canonical (run : Run AllocatedStep radixTreeInit trace root) :
    root.Canonical ∧ ∀ index, radixTreeLookup root index = mapAfter trace index := by
  refine ⟨run.invariant .init fun _ _ _ canonical stepped => stepped.canonical canonical, ?_⟩
  have matched : ∃ other, Run RadixStep radixTreeInit trace other ∧ root = other :=
    run.simulate rfl fun _ _ after _ same stepped => ⟨after, same ▸ stepped.radixStep, rfl⟩
  obtain ⟨_, run, rfl⟩ := matched
  exact (radixRun_refines run).2

/-- The tree is determined by its map: every node counts its used slots and has one, and
the height is that of the largest key. -/
theorem radix_tree_shape_history_independent {trace : List (RadixOp α)}
    (run : Run AllocatedStep radixTreeInit trace root) :
    root.Tight ∧ ((mapAfter trace = fun _ => none) ∧ root = ⟨0, none⟩ ∨
      ∃ key, IsGreatest { key | mapAfter trace key ≠ none } key ∧
        root.height = max 1 (Nat.digits 64 key).length) ∧
    (∀ otherTrace other, Run AllocatedStep radixTreeInit otherTrace other →
      mapAfter otherTrace = mapAfter trace → other = root) ∧
    (∀ fuel index item after calls, index < 2 ^ 60 →
      radixTreeInsert (fun _ => true) fuel root index item = some (true, after, calls) →
      radixTreeDelete after index = (some item, root)) ∧
    ∀ index item, index < 2 ^ 60 →
      ∃ inserted after calls,
        radixTreeInsert (fun _ => true) 10 root index item = some (inserted, after, calls) := by
  obtain ⟨canonical, refines⟩ := allocatedRun_canonical run
  refine ⟨canonical.tight, ?_, fun otherTrace other otherRun same => ?_, ?_, ?_⟩
  · have keys : { key | mapAfter trace key ≠ none } = { key | radixTreeLookup root key ≠ none } := by
      ext key
      rw [Set.mem_ofPred_eq, Set.mem_ofPred_eq, refines]
    rcases Nat.eq_zero_or_pos root.height with empty | used
    · refine .inl ?_
      obtain ⟨height, rnode⟩ := root
      cases (show height = 0 from empty)
      cases (show rnode = none from canonical.valid)
      exact ⟨funext fun key => (refines key).symm, rfl⟩
    · obtain ⟨key, largest⟩ := canonical.exists_greatest used
      exact .inr ⟨key, keys ▸ largest, canonical.height_eq largest⟩
  · obtain ⟨otherCanonical, otherRefines⟩ := allocatedRun_canonical otherRun
    refine otherCanonical.ext canonical fun key => ?_
    rw [otherRefines, refines, same]
  · intro fuel index item after calls bounded returned
    have spec := radixTreeInsert_spec canonical.valid bounded returned
    have inserted := radixTreeInsert_canonical canonical bounded (fun _ => rfl) returned
    have absent := (spec.success.mp rfl).1
    have removed := radixTreeDelete_spec inserted.valid index
    have restored := radixTreeDelete_canonical inserted index
    refine Prod.ext ?_ ?_
    · rw [removed.returned, spec.lookups]
      simp
    · refine restored.ext canonical fun key => ?_
      rw [removed.lookups, spec.lookups]
      by_cases same : key = index
      · simp [same, absent]
      · simp [same]
  · intro index item bounded
    obtain ⟨⟨inserted, after, calls⟩, returned, -⟩ := radixTreeInsert_terminates canonical.valid bounded item
    exact ⟨inserted, after, calls, returned⟩

theorem RadixTreeRoot.Canonical.exists_insert (canonical : root.Canonical) (bounded : index < 2 ^ 60)
    (absent : radixTreeLookup root index = none) (item : α) :
    ∃ after, AllocatedStep root (.insert index item true) after := by
  obtain ⟨⟨inserted, after, calls⟩, returned, spec⟩ := radixTreeInsert_terminates canonical.valid bounded item
  cases spec.success.mpr ⟨absent, fun _ _ _ => rfl⟩
  exact ⟨after, .insert bounded returned⟩

/-- A detour through a larger key, which makes the tree taller for a while. -/
theorem radix_tree_shape_history_independent_detour : ∃ direct detour : RadixTreeRoot Char,
      Run AllocatedStep radixTreeInit [.insert 5 'a' true] direct ∧
      Run AllocatedStep radixTreeInit
        [.insert 100 'b' true, .insert 5 'a' true, .delete 100 (some 'b')] detour ∧
      detour = direct := by
  have start : Run AllocatedStep (radixTreeInit : RadixTreeRoot Char) [] radixTreeInit := .nil
  obtain ⟨direct, inserted⟩ := (RadixTreeRoot.Canonical.init).exists_insert (by decide : 5 < _) rfl 'a'
  obtain ⟨large, stepped⟩ := (RadixTreeRoot.Canonical.init).exists_insert (by decide : 100 < _) rfl 'b'
  have directRun := start.snoc inserted
  have largeRun := start.snoc stepped
  obtain ⟨canonical, lookups⟩ := allocatedRun_canonical largeRun
  obtain ⟨both, stepped⟩ := canonical.exists_insert (by decide : 5 < _) (lookups 5) 'a'
  have bothRun := largeRun.snoc stepped
  obtain ⟨canonical, lookups⟩ := allocatedRun_canonical bothRun
  have found : (radixTreeDelete both 100).1 = some 'b' :=
    (radixTreeDelete_spec canonical.valid 100).returned.trans (lookups 100)
  have detourRun := bothRun.snoc (.delete (by decide) (Prod.ext found rfl))
  have maps : mapAfter [.insert 100 'b' true, .insert 5 'a' true, .delete 100 (some 'b')] =
      mapAfter [.insert 5 'a' true] := by
    funext key
    by_cases five : key = 5
    · simp [mapAfter, RadixOp.apply, five]
    · by_cases hundred : key = 100
      · simp [mapAfter, RadixOp.apply, hundred]
      · simp [mapAfter, RadixOp.apply, update, five]
  obtain ⟨-, -, unique, -⟩ := radix_tree_shape_history_independent directRun
  exact ⟨direct, _, directRun, detourRun, unique _ _ detourRun maps⟩

end Rucix.Lib
