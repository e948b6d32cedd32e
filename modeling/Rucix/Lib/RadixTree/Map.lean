import Mathlib.Data.Nat.Digits.Lemmas
import Rucix.Lib.RadixTree.Nodes

namespace Rucix.Lib

open Rucix.Data Function

variable {α : Type} {allocs : Nat → Bool} {index height call fuel : Nat} {item : α}
  {root : RadixTreeRoot α}

theorem maxIndex_lt_iff (low : height ≤ 10) (index : Nat) : maxIndex height < index ↔ 64 ^ height ≤ index := by
  have shift : height * radixTreeMapShift % 64 = 6 * height := by
    rw [radixTreeMapShift, Nat.mul_comm]
    exact Nat.mod_eq_of_lt (by omega)
  have positive : 0 < 64 ^ height := Nat.pow_pos (by decide)
  have power : 2 ^ (6 * height) = 64 ^ height := by rw [Nat.pow_mul]
  rw [maxIndex, shift]
  omega

theorem lt_ten_of_outside (low : height ≤ 10) (bounded : index < 64 ^ 10) (outside : maxIndex height < index) :
    height < 10 ∧ 64 ^ height ≤ index := by
  rw [maxIndex_lt_iff low] at outside
  refine ⟨Nat.lt_of_le_of_ne low ?_, outside⟩
  rintro rfl
  omega

/-- What holds of every tree built with indices below `64 ^ 10`. -/
def RadixTreeRoot.Valid : RadixTreeRoot α → Prop
  | ⟨0, rnode⟩ => rnode = none
  | ⟨height + 1, none⟩ => height < 10
  | ⟨height + 1, some node⟩ => height < 10 ∧ Counted height node

def RadixTreeRoot.Tight : RadixTreeRoot α → Prop
  | ⟨0, rnode⟩ => rnode = none
  | ⟨_ + 1, none⟩ => False
  | ⟨height + 1, some node⟩ => Lib.Tight height node

theorem radixTreeLookup_node (low : height < 10) (node : RadixTreeNode (Subtree α height)) (index : Nat) :
    radixTreeLookup ⟨height + 1, some node⟩ index =
      if index < 64 ^ (height + 1) then lookupIn index height node else none := by
  simp only [radixTreeLookup, maxIndex_lt_iff low]
  by_cases inside : index < 64 ^ (height + 1)
  · rw [if_neg (by omega), if_pos inside]
  · rw [if_pos (by omega), if_neg inside]

theorem radixTreeLookup_raise (low : height + 1 < 10) {node : RadixTreeNode (Subtree α (height + 1))}
    {child : RadixTreeNode (Subtree α height)} (first : node.slots 0 = some child)
    (others : ∀ slot, slot ≠ 0 → node.slots slot = none) (index : Nat) :
    radixTreeLookup ⟨height + 2, some node⟩ index =
      radixTreeLookup ⟨height + 1, some child⟩ index := by
  rw [radixTreeLookup_node low, radixTreeLookup_node (by omega : height < 10), lookupIn_succ low]
  by_cases inside : index < 64 ^ (height + 1 + 1)
  · rw [if_pos inside]
    by_cases inner : index < 64 ^ (height + 1)
    · rw [if_pos inner, (digit_eq_zero_iff inside).mpr inner, first]
      rfl
    · have nonzero : digit 64 (height + 1) index ≠ 0 := fun zero =>
        inner ((digit_eq_zero_iff inside).mp zero)
      rw [if_neg inner, others _ nonzero]
      rfl
  · rw [if_neg inside, if_neg (by omega)]

structure GrowSpec (allocs : Nat → Bool) (root : RadixTreeRoot α) (target call : Nat)
    (result : Bool × RadixTreeRoot α × Nat) : Prop where
  valid : result.2.1.Valid
  calls : call ≤ result.2.2
  success : result.1 = true ↔ AllocsSucceed allocs call result.2.2
  tall : result.1 = true → result.2.1.height = target
  tight : root.Tight ∨ root.rnode = none → result.2.1.Tight ∨ result.2.1.rnode = none
  lookups : ∀ other, radixTreeLookup result.2.1 other = radixTreeLookup root other

theorem growRoot_spec {levels : Nat} {node : RadixTreeNode (Subtree α height)} (counted : Counted height node)
    (bounded : height + 1 + levels ≤ 10) (call : Nat) :
    GrowSpec allocs ⟨height + 1, some node⟩ (height + 1 + levels) call
      (growRoot allocs levels ⟨height + 1, some node⟩ call) := by
  induction levels generalizing height call with
  | zero =>
    refine ⟨⟨by omega, counted⟩, Nat.le_refl _, ?_, fun _ => rfl, id, fun _ => rfl⟩
    simp [growRoot, allocsSucceed_empty]
  | succ levels ih =>
    rw [growRoot]
    cases allocated : allocs call with
    | false =>
      refine ⟨⟨by omega, counted⟩, Nat.le_succ _, ?_, by simp, id, fun _ => rfl⟩
      simp [not_allocsSucceed allocated (Nat.lt_succ_self call)]
    | true =>
      let top : RadixTreeNode (Subtree α (height + 1)) :=
        { count := 1, slots := update (fun _ => none) 0 (some node) }
      have count := (occupied_single (0 : Fin radixTreeMapSize) node).symm
      have topCounted : Counted (height + 1) top :=
        .update count (counted_empty _) fun _ same => by cases same; exact counted
      have later := ih topCounted (by omega) (call + 1)
      have others : ∀ slot, slot ≠ 0 → top.slots slot = none := fun slot nonzero =>
        update_of_ne nonzero (some node) fun _ => none
      have raised := radixTreeLookup_raise (by omega : height + 1 < 10)
        (show top.slots 0 = some node from rfl) others
      rw [if_pos rfl]
      refine ⟨later.valid, Nat.le_of_succ_le later.calls, ?_, fun grown => ?_, fun tight => ?_, fun other => ?_⟩
      · rw [allocsSucceed_cons allocated]
        exact later.success
      · rw [later.tall grown]
        omega
      · have tight : Lib.Tight height node := tight.resolve_right nofun
        exact later.tight (.inl (.update count (.inr rfl) (fun _ same => by cases same; exact tight) Nat.one_pos))
      · rw [later.lookups, raised]

theorem shrinkNode_spec (low : height < 10) {node : RadixTreeNode (Subtree α height)} (counted : Counted height node) :
    (shrinkNode height node).Valid ∧
      ∀ other, radixTreeLookup (shrinkNode height node) other =
        radixTreeLookup ⟨height + 1, some node⟩ other := by
  induction height with
  | zero => exact ⟨⟨low, counted⟩, fun _ => rfl⟩
  | succ height ih =>
    have unchanged : RadixTreeRoot.Valid ⟨height + 2, some node⟩ := ⟨low, counted⟩
    rw [shrinkNode]
    split
    · rename_i single
      cases first : node.slots 0 with
      | none => exact ⟨unchanged, fun _ => rfl⟩
      | some child =>
        obtain ⟨valid, lookups⟩ := ih (by omega) (counted.2 _ _ first)
        refine ⟨valid, fun other => ?_⟩
        rw [lookups, radixTreeLookup_raise low first]
        intro slot different
        exact eq_none_of_occupied_eq_one (counted.count_eq.symm.trans single) first different
    · exact ⟨unchanged, fun _ => rfl⟩

structure RootInsertSpec (allocs : Nat → Bool) (index : Nat) (item : α) (root : RadixTreeRoot α)
    (call : Nat) (result : Bool × RadixTreeRoot α × Nat) : Prop where
  valid : result.2.1.Valid
  calls : call ≤ result.2.2
  success : result.1 = true ↔
    radixTreeLookup root index = none ∧ AllocsSucceed allocs call result.2.2
  lookups : ∀ other, radixTreeLookup result.2.1 other =
    if result.1 = true ∧ other = index then some item else radixTreeLookup root other
  tight : root.Tight ∨ root.rnode = none → result.1 = true → result.2.1.Tight
  height : 1 < result.2.1.height → result.1 = true →
    result.2.1.height = root.height ∨ 64 ^ (result.2.1.height - 1) ≤ index

theorem InsertSpec.atRoot (low : height < 10) (inside : index < 64 ^ (height + 1))
    (spec : InsertSpec allocs index item height node call result) :
    RootInsertSpec allocs index item ⟨height + 1, some node⟩ call
      (result.1, ⟨height + 1, some result.2.1⟩, result.2.2) := by
  refine ⟨⟨low, spec.counted⟩, spec.calls, ?_, fun other => ?_, fun tight => ?_, fun _ _ => .inl rfl⟩
  · rw [radixTreeLookup_node low, if_pos inside]
    exact spec.success
  · rw [radixTreeLookup_node low, radixTreeLookup_node low, spec.lookups]
    by_cases covered : other < 64 ^ (height + 1)
    · have key : SameKey height other index ↔ other = index := by
        rw [SameKey, Nat.mod_eq_of_lt covered, Nat.mod_eq_of_lt inside]
      simp only [if_pos covered, key]
    · have different : other ≠ index := by omega
      simp [covered, different]
  · exact spec.tight (.inl (tight.resolve_right (by simp)))

theorem indexDigits_eq_length (index : Nat) : indexDigits index = (Nat.digits 64 index).length := by
  induction index using Nat.strongRecOn with
  | ind index ih =>
    rw [indexDigits]
    split
    · rename_i positive
      have shorter : index / 64 < index := Nat.div_lt_self positive (by decide)
      rw [radixTreeMapShift, Nat.shiftRight_eq_div_pow, ih _ shorter,
        Nat.digits_def' (by decide) positive, List.length_cons]
    · rename_i zero
      rw [Nat.eq_zero_of_not_pos zero]
      rfl

theorem indexDigits_le_iff (index : Nat) : indexDigits index ≤ digits ↔ index < 64 ^ digits := by
  rw [indexDigits_eq_length, Nat.digits_length_le_iff (by decide)]

/-- The loop stops at the first height that covers the index, or `fuel` runs out before. -/
theorem extendHeight_cases (bounded : index < 64 ^ 10) (low : first ≤ 10) (outside : 64 ^ (first - 1) ≤ index) :
    first + fuel ≤ 10 ∧ extendHeight index fuel first = none ∨
      ∃ target, extendHeight index fuel first = some target ∧ first ≤ target ∧ target ≤ 10 ∧
        index < 64 ^ target ∧ 64 ^ (target - 1) ≤ index := by
  induction fuel generalizing first with
  | zero => exact .inl ⟨low, rfl⟩
  | succ fuel ih =>
    rw [extendHeight]
    split
    · rename_i beyond
      obtain ⟨room, large⟩ := lt_ten_of_outside low bounded beyond
      rcases ih room large with ⟨short, stopped⟩ | ⟨target, found, above, rest⟩
      · exact .inl ⟨by omega, stopped⟩
      · exact .inr ⟨target, found, by omega, rest⟩
    · rename_i covered
      rw [maxIndex_lt_iff low, Nat.not_le] at covered
      exact .inr ⟨first, rfl, Nat.le_refl _, low, covered, outside⟩

theorem allocsSucceed_append (left : first ≤ middle) (right : middle ≤ last) :
    AllocsSucceed allocs first last ↔
      AllocsSucceed allocs first middle ∧ AllocsSucceed allocs middle last := by
  refine ⟨fun all => ⟨fun call lower upper => all call lower (by omega),
    fun call lower upper => all call (by omega) upper⟩, fun both call lower upper => ?_⟩
  rcases Nat.lt_or_ge call middle with early | late
  · exact both.1 call lower early
  · exact both.2 call late upper

/-- The tree that `radix_tree_insert` starts from: an empty one gets the height
its first index needs. -/
def RadixTreeRoot.prepare (root : RadixTreeRoot α) (index : Nat) : RadixTreeRoot α :=
  match root with
  | ⟨0, none⟩ => ⟨max 1 (indexDigits index), none⟩
  | other => other

theorem radixTreeInsert_eq (root : RadixTreeRoot α) : radixTreeInsert allocs fuel root index item =
      if maxIndex (root.prepare index).height < index then
        (radixTreeExtend allocs fuel (root.prepare index) index 0).bind fun result =>
          if result.1 then some (insertRoot allocs index item result.2.1 result.2.2)
          else some (false, result.2)
      else some (insertRoot allocs index item (root.prepare index) 0) := rfl

structure RootDeleteSpec (index : Nat) (root : RadixTreeRoot α)
    (result : Option α × RadixTreeRoot α) : Prop where
  valid : result.2.Valid
  returned : result.1 = radixTreeLookup root index
  lookups : ∀ other, radixTreeLookup result.2 other =
    if other = index then none else radixTreeLookup root other
  unchanged : result.1 = none → result.2 = root

section

variable (valid : root.Valid)
include valid

theorem insertRoot_spec (tall : root.height = height + 1) (inside : index < 64 ^ (height + 1))
    (call : Nat) : RootInsertSpec allocs index item root call (insertRoot allocs index item root call) := by
  obtain ⟨_, rnode⟩ := root
  cases tall
  cases rnode with
  | some node => exact (insertInto_spec valid.1 valid.2 call).atRoot valid.1 inside
  | none =>
    have low : height < 10 := valid
    have vacant : ∀ other,
        radixTreeLookup ⟨height + 1, some (emptyNode : Subtree α (height + 1))⟩ other = none := by
      intro other
      rw [radixTreeLookup_node low, lookupIn_empty, ite_self]
    rw [insertRoot]
    cases allocated : allocs call with
    | false =>
      refine ⟨low, Nat.le_succ _, ?_, by simp, fun _ => nofun, fun _ => nofun⟩
      simp [not_allocsSucceed allocated (Nat.lt_succ_self call)]
    | true =>
      have spec : InsertSpec allocs index item height emptyNode (call + 1) _ :=
        insertInto_spec low (counted_empty height) (call + 1)
      have below := spec.atRoot low inside
      rw [if_pos rfl]
      refine ⟨below.valid, Nat.le_of_succ_le below.calls, ?_, fun other => ?_, fun _ => spec.tight (.inr rfl),
        below.height⟩
      · rw [allocsSucceed_cons allocated, below.success, vacant]
        rfl
      · rw [below.lookups, vacant]
        rfl

theorem RadixTreeRoot.Valid.height_le : root.height ≤ 10 := by
  obtain ⟨_ | height, rnode⟩ := root
  · exact Nat.zero_le _
  · cases rnode with
    | none => exact valid
    | some node => exact valid.1

theorem rootDeleteSpec_absent (absent : radixTreeLookup root index = none) :
    RootDeleteSpec index root (none, root) := by
  refine ⟨valid, absent.symm, fun other => ?_, fun _ => rfl⟩
  split
  · rename_i same
    rw [same]
    exact absent
  · rfl

theorem radixTreeDelete_spec (index : Nat) :
    RootDeleteSpec index root (radixTreeDelete root index) := by
  obtain ⟨_ | height, rnode⟩ := root
  · exact rootDeleteSpec_absent valid rfl
  · cases rnode with
    | none => exact rootDeleteSpec_absent valid rfl
    | some node =>
      obtain ⟨low, counted⟩ := valid
      have lookup := radixTreeLookup_node low node index
      simp only [radixTreeDelete, maxIndex_lt_iff low]
      split
      · refine rootDeleteSpec_absent ⟨low, counted⟩ ?_
        rw [lookup, if_neg (by omega)]
      · rw [if_pos (by omega)] at lookup
        have spec := deleteFrom_spec low counted index
        cases removed : deleteFrom index height node with
        | none =>
          rw [removed] at spec
          exact rootDeleteSpec_absent ⟨low, counted⟩ (lookup.trans spec)
        | some found =>
          obtain ⟨item, rest⟩ := found
          rw [removed] at spec
          have key : ∀ other, other < 64 ^ (height + 1) →
              (SameKey height other index ↔ other = index) := by
            intro other covered
            rw [SameKey, Nat.mod_eq_of_lt covered, Nat.mod_eq_of_lt (by omega)]
          have restored : ∀ other, (if other < 64 ^ (height + 1) then
                rest.bind fun node => lookupIn other height node else none) =
              if other = index then none
              else radixTreeLookup ⟨height + 1, some node⟩ other := by
            intro other
            rw [radixTreeLookup_node low, spec.lookups]
            by_cases covered : other < 64 ^ (height + 1)
            · simp only [if_pos covered, key other covered]
            · simp [covered]
          have returned : some item = radixTreeLookup ⟨height + 1, some node⟩ index := by
            rw [lookup, spec.found]
          cases rest with
          | none =>
            refine ⟨rfl, returned, fun other => ?_, fun none => by cases none⟩
            rw [← restored other]
            simp [radixTreeLookup, radixTreeShrink]
          | some after =>
            obtain ⟨shrunk, lookups⟩ := shrinkNode_spec low (spec.counted after rfl)
            refine ⟨shrunk, returned, fun other => ?_, fun none => by cases none⟩
            rw [← restored other]
            simp only [radixTreeShrink, lookups, radixTreeLookup_node low, Option.bind_some]

variable (bounded : index < 64 ^ 10)
include bounded

theorem radixTreeExtend_cases (tall : 0 < root.height) (outside : maxIndex root.height < index) (call : Nat) :
    root.height + fuel < 10 ∧ radixTreeExtend allocs fuel root index call = none ∨
      ∃ result target, radixTreeExtend allocs fuel root index call = some result ∧ index < 64 ^ target ∧
        64 ^ (target - 1) ≤ index ∧ GrowSpec allocs root target call result := by
  obtain ⟨room, outside⟩ := lt_ten_of_outside valid.height_le bounded outside
  rw [radixTreeExtend]
  rcases @extendHeight_cases index fuel _ bounded room outside with
    ⟨short, stopped⟩ | ⟨target, found, lower, upper, covered, minimal⟩
  · exact .inl ⟨by omega, by rw [stopped]; rfl⟩
  refine .inr ⟨_, target, by rw [found]; rfl, covered, minimal, ?_⟩
  obtain ⟨_ | height, _ | node⟩ := root
  · exact absurd tall (Nat.lt_irrefl 0)
  · exact absurd tall (Nat.lt_irrefl 0)
  · obtain ⟨smaller, rfl⟩ : ∃ smaller, target = smaller + 1 := ⟨target - 1, by omega⟩
    simp only [Nat.sub_self, growRoot]
    refine ⟨show smaller < 10 by omega, Nat.le_refl _, ?_, fun _ => rfl, fun _ => .inr rfl, fun _ => rfl⟩
    simp [allocsSucceed_empty]
  · have lower : height + 1 + 1 ≤ target := lower
    have levels : height + 1 + (target - (height + 1)) = target := by omega
    have grown : GrowSpec allocs ⟨height + 1, some node⟩ _ call _ :=
      growRoot_spec valid.2 (by omega : height + 1 + (target - (height + 1)) ≤ 10) call
    rwa [levels] at grown

theorem RadixTreeRoot.Valid.prepare :
    (root.prepare index).Valid ∧ 0 < (root.prepare index).height ∧
      (∀ other, radixTreeLookup (root.prepare index) other = radixTreeLookup root other) ∧
      (root.Tight ∨ root.rnode = none → (root.prepare index).Tight ∨ (root.prepare index).rnode = none) ∧
      (1 < (root.prepare index).height →
        (root.prepare index).height = root.height ∨ 64 ^ ((root.prepare index).height - 1) ≤ index) := by
  obtain ⟨_ | height, rnode⟩ := root
  · cases (show rnode = none from valid)
    have digits := (indexDigits_le_iff index).mpr bounded
    obtain ⟨smaller, height⟩ : ∃ smaller, max 1 (indexDigits index) = smaller + 1 :=
      ⟨max 1 (indexDigits index) - 1, by omega⟩
    rw [RadixTreeRoot.prepare, height]
    refine ⟨show smaller < 10 by omega, Nat.succ_pos _, fun _ => rfl, fun _ => .inr rfl, fun above => .inr ?_⟩
    have above : 1 < smaller + 1 := above
    change 64 ^ smaller ≤ index
    rw [← Nat.not_lt, ← indexDigits_le_iff]
    omega
  · exact ⟨valid, Nat.succ_pos _, fun _ => rfl, id, fun _ => .inl rfl⟩

/-- Whatever allocations fail, insertion succeeds exactly when the index was
free and no allocation it made failed, and then adds exactly that entry. -/
theorem radixTreeInsert_cases (item : α) :
    fuel < 10 ∧ radixTreeInsert allocs fuel root index item = none ∨
      ∃ result, radixTreeInsert allocs fuel root index item = some result ∧
        RootInsertSpec allocs index item root 0 result := by
  obtain ⟨prepared, tall, same, tight, height⟩ := valid.prepare bounded
  rw [radixTreeInsert_eq]
  split
  · rename_i outside
    rcases @radixTreeExtend_cases _ allocs index fuel _ prepared bounded tall outside 0 with
      ⟨short, stopped⟩ | ⟨⟨grown, taller, next⟩, target, extended, covered, minimal, growth⟩
    · exact .inl ⟨by omega, by rw [stopped]; rfl⟩
    rw [extended]
    have order : 0 ≤ next := growth.calls
    cases grown with
    | false =>
      have failed : ¬AllocsSucceed allocs 0 next := fun all => by
        have := growth.success.mpr all
        cases this
      refine .inr ⟨_, rfl, growth.valid, order, ?_, fun other => ?_, fun _ => nofun, fun _ => nofun⟩
      · simp [failed]
      · simp [growth.lookups, same]
    | true =>
      have grownCalls := growth.success.mp rfl
      have reached := growth.tall rfl
      obtain ⟨smaller, rfl⟩ : ∃ smaller, target = smaller + 1 := by
        refine ⟨target - 1, ?_⟩
        rcases Nat.eq_zero_or_pos target with rfl | positive
        · omega
        · omega
      have spec : RootInsertSpec allocs index item taller next _ :=
        insertRoot_spec growth.valid reached covered next
      have later := spec.calls
      refine .inr ⟨_, rfl, spec.valid, Nat.zero_le _, ?_, fun other => ?_,
        fun whole => spec.tight (growth.tight (tight whole)), fun above success => .inr ?_⟩
      · rw [spec.success, growth.lookups, same, allocsSucceed_append order later]
        exact ⟨fun both => ⟨both.1, grownCalls, both.2⟩, fun both => ⟨both.1, both.2.2⟩⟩
      · rw [spec.lookups, growth.lookups, same]
      · rcases spec.height above success with unchanged | large
        · rw [unchanged, reached]
          exact minimal
        · exact large
  · rename_i inside
    rw [maxIndex_lt_iff prepared.height_le] at inside
    obtain ⟨smaller, reached⟩ : ∃ smaller, (root.prepare index).height = smaller + 1 :=
      ⟨(root.prepare index).height - 1, by omega⟩
    have spec : RootInsertSpec allocs index item (root.prepare index) 0 _ :=
      insertRoot_spec prepared reached (by rw [← reached]; omega) 0
    refine .inr ⟨_, rfl, spec.valid, Nat.zero_le _, ?_, fun other => ?_, fun whole => spec.tight (tight whole),
      fun above success => ?_⟩
    · rw [spec.success, same]
    · rw [spec.lookups, same]
    · rcases spec.height above success with unchanged | large
      · rw [unchanged] at above ⊢
        exact height above
      · exact .inr large

theorem radixTreeInsert_spec (returned : radixTreeInsert allocs fuel root index item = some result) :
    RootInsertSpec allocs index item root 0 result := by
  rcases radixTreeInsert_cases valid bounded item with ⟨-, stopped⟩ | ⟨other, again, spec⟩
  · cases stopped.symm.trans returned
  · cases again.symm.trans returned
    exact spec

end

theorem radixTreeInsert_terminates (valid : root.Valid) (bounded : index < 64 ^ 10) (item : α) :
    ∃ result, radixTreeInsert allocs 10 root index item = some result ∧
      RootInsertSpec allocs index item root 0 result :=
  (radixTreeInsert_cases valid bounded item).resolve_left fun short => Nat.lt_irrefl 10 short.1

/-- Calls with what they returned: whether `radix_tree_insert` returned 0, and
the item that the other two returned. -/
inductive RadixOp (α : Type) where
  | insert (index : Nat) (item : α) (inserted : Bool)
  | delete (index : Nat) (found : Option α)
  | lookup (index : Nat) (found : Option α)

inductive RadixStep : RadixTreeRoot α → RadixOp α → RadixTreeRoot α → Prop where
  | insert {root after : RadixTreeRoot α} {index fuel calls : Nat} {item : α} {inserted : Bool}
      {allocs : Nat → Bool} (bounded : index < 2 ^ 60)
      (returned : radixTreeInsert allocs fuel root index item = some (inserted, after, calls)) :
      RadixStep root (.insert index item inserted) after
  | delete {root after : RadixTreeRoot α} {index : Nat} {found : Option α}
      (bounded : index < 2 ^ 60) (returned : radixTreeDelete root index = (found, after)) :
      RadixStep root (.delete index found) after
  | lookup {root : RadixTreeRoot α} {index : Nat} {found : Option α} (bounded : index < 2 ^ 60)
      (returned : radixTreeLookup root index = found) : RadixStep root (.lookup index found) root

/-- The finite map that a sequence of calls builds. -/
def RadixOp.apply (map : Nat → Option α) : RadixOp α → Nat → Option α
  | .insert index item true => update map index (some item)
  | .insert _ _ false => map
  | .delete index _ => update map index none
  | .lookup _ _ => map

def mapAfter (trace : List (RadixOp α)) : Nat → Option α :=
  trace.foldl RadixOp.apply fun _ => none

theorem RadixStep.refines (valid : root.Valid) (refines : ∀ index, radixTreeLookup root index = map index)
    (stepped : RadixStep root op after) :
    after.Valid ∧ ∀ index, radixTreeLookup after index = op.apply map index := by
  cases stepped with
  | insert bounded returned =>
    have spec := radixTreeInsert_spec valid bounded returned
    refine ⟨spec.valid, fun index => ?_⟩
    rename_i inserted _
    rw [spec.lookups, refines]
    cases inserted with
    | false => simp [RadixOp.apply]
    | true => simp [RadixOp.apply, update_apply]
  | delete bounded returned =>
    rename_i key _
    have spec := radixTreeDelete_spec valid key
    rw [returned] at spec
    refine ⟨spec.valid, fun index => ?_⟩
    rw [spec.lookups, refines]
    simp [RadixOp.apply, update_apply]
  | lookup _ _ => exact ⟨valid, refines⟩

theorem radixRun_refines (run : Run RadixStep radixTreeInit trace root) :
    root.Valid ∧ ∀ index, radixTreeLookup root index = mapAfter trace index := by
  induction run with
  | nil => exact ⟨rfl, fun _ => rfl⟩
  | snoc earlier last ih =>
    obtain ⟨valid, refines⟩ := ih
    rw [mapAfter, List.foldl_append]
    exact last.refines valid refines

/-- After any run from an empty tree the tree holds the map its calls built, and the next
call acts on it as on a map. -/
theorem radix_tree_refines_map {trace : List (RadixOp α)} (run : Run RadixStep radixTreeInit trace root) :
    (∀ index, index < 2 ^ 60 → radixTreeLookup root index = mapAfter trace index) ∧
    (∀ allocs index item, index < 2 ^ 60 → ∃ inserted after calls,
      radixTreeInsert allocs 10 root index item = some (inserted, after, calls) ∧
      (inserted = true ↔
        mapAfter trace index = none ∧ ∀ call, call < calls → allocs call = true) ∧
      ∀ other, other < 2 ^ 60 → radixTreeLookup after other =
        if inserted = true then Function.update (mapAfter trace) index (some item) other
        else mapAfter trace other) ∧
    ∀ index, index < 2 ^ 60 →
      (radixTreeDelete root index).1 = mapAfter trace index ∧
      (∀ other, other < 2 ^ 60 → radixTreeLookup (radixTreeDelete root index).2 other =
        Function.update (mapAfter trace) index none other) ∧
      ((radixTreeDelete root index).1 = none → (radixTreeDelete root index).2 = root) := by
  obtain ⟨valid, refines⟩ := radixRun_refines run
  refine ⟨fun index _ => refines index, fun allocs index item bounded => ?_, fun index _ => ?_⟩
  · obtain ⟨⟨inserted, after, calls⟩, returned, spec⟩ := radixTreeInsert_terminates valid bounded item
    refine ⟨inserted, after, calls, returned, ?_, fun other _ => ?_⟩
    · rw [spec.success, refines]
      exact and_congr_right fun _ => ⟨fun all call upper => all call (Nat.zero_le _) upper,
        fun all call _ upper => all call upper⟩
    · rw [spec.lookups, refines]
      cases inserted with
      | false => simp
      | true => simp [update_apply]
  · have spec := radixTreeDelete_spec valid index
    refine ⟨spec.returned.trans (refines index), fun other _ => ?_, spec.unchanged⟩
    rw [spec.lookups, refines, update_apply]

theorem radix_tree_refines_map_two_keys : ∃ root, Run RadixStep radixTreeInit
        [.insert 5 'a' true, .insert 100 'b' true, .delete 5 (some 'a')] root ∧
      radixTreeLookup root 5 = none ∧ radixTreeLookup root 100 = some 'b' := by
  have start : Run RadixStep (radixTreeInit : RadixTreeRoot Char) [] radixTreeInit := .nil
  obtain ⟨first, one, _, oneReturned, firstIff, -⟩ :=
    (radix_tree_refines_map start).2.1 (fun _ => true) 5 'a' (by decide)
  cases firstIff.mpr ⟨rfl, fun _ _ => rfl⟩
  have single := start.snoc (.insert (by decide) oneReturned)
  obtain ⟨second, two, _, twoReturned, secondIff, -⟩ :=
    (radix_tree_refines_map single).2.1 (fun _ => true) 100 'b' (by decide)
  cases secondIff.mpr ⟨by decide, fun _ _ => rfl⟩
  have both := single.snoc (.insert (by decide) twoReturned)
  obtain ⟨removed, -, -⟩ := (radix_tree_refines_map both).2.2 5 (by decide)
  have run := both.snoc (.delete (by decide) (Prod.ext removed rfl))
  obtain ⟨lookups, -, -⟩ := radix_tree_refines_map run
  exact ⟨_, run, lookups 5 (by decide), lookups 100 (by decide)⟩

end Rucix.Lib
