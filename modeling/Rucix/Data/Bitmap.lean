import Mathlib.Order.Interval.Finset.Nat

namespace Rucix.Data

open Function Finset

/-! Bit arrays packed eight to a byte. -/

abbrev Bitmap := Nat → BitVec 8

namespace Bitmap

variable {bitmap : Bitmap} {bit other count : Nat}

def set (bitmap : Bitmap) (bit : Nat) : Bitmap :=
  update bitmap (bit / 8) (bitmap (bit / 8) ||| (1#8 <<< (bit % 8)))

def clear (bitmap : Bitmap) (bit : Nat) : Bitmap :=
  update bitmap (bit / 8) (bitmap (bit / 8) &&& ~~~(1#8 <<< (bit % 8)))

def test (bitmap : Bitmap) (bit : Nat) : Bool :=
  (bitmap (bit / 8) &&& (1#8 <<< (bit % 8))) != 0#8

theorem getLsbD_one_shiftLeft (bound : index < 8) : (1#8 <<< shift).getLsbD index = decide (index = shift) := by
  by_cases below : index < shift
  · simp [below, Nat.ne_of_lt below]
  · simp only [BitVec.getLsbD_shiftLeft, bound, below]
    have positive : index - shift = 0 ↔ index = shift := by omega
    simp [positive]

theorem test_eq_getLsbD : bitmap.test bit = (bitmap (bit / 8)).getLsbD (bit % 8) := by
  have bound : bit % 8 < 8 := Nat.mod_lt _ (by decide)
  cases value : (bitmap (bit / 8)).getLsbD (bit % 8) with
  | true =>
    simp only [test, bne_iff_ne]
    intro zero
    have selected := congrArg (fun byte => byte.getLsbD (bit % 8)) zero
    rw [BitVec.getLsbD_and, value, getLsbD_one_shiftLeft bound] at selected
    simp at selected
  | false =>
    simp only [test, bne_eq_false_iff_eq]
    apply BitVec.eq_of_getLsbD_eq
    intro index inside
    rw [BitVec.getLsbD_and, getLsbD_one_shiftLeft inside]
    by_cases same : index = bit % 8
    · simp [same, value]
    · simp [same]

theorem test_set : (bitmap.set bit).test other = (decide (other = bit) || bitmap.test other) := by
  have bound : other % 8 < 8 := Nat.mod_lt _ (by decide)
  simp only [test_eq_getLsbD, set]
  by_cases byte : other / 8 = bit / 8
  · have position : other = bit ↔ other % 8 = bit % 8 := by omega
    rw [byte, update_self, BitVec.getLsbD_or, getLsbD_one_shiftLeft bound]
    simp only [position, Bool.or_comm]
  · have different : other ≠ bit := fun same => byte (by rw [same])
    rw [update_of_ne byte]
    simp [different]

theorem test_clear :
    (bitmap.clear bit).test other = (!decide (other = bit) && bitmap.test other) := by
  have bound : other % 8 < 8 := Nat.mod_lt _ (by decide)
  simp only [test_eq_getLsbD, clear]
  by_cases byte : other / 8 = bit / 8
  · have position : other = bit ↔ other % 8 = bit % 8 := by omega
    rw [byte, update_self, BitVec.getLsbD_and, BitVec.getLsbD_not,
      getLsbD_one_shiftLeft bound]
    simp only [position, bound, decide_true, Bool.true_and, Bool.and_comm]
  · have different : other ≠ bit := fun same => byte (by rw [same])
    rw [update_of_ne byte]
    simp [different]

def clearBelow (bitmap : Bitmap) (count : Nat) : Finset Nat :=
  (range count).filter fun bit => bitmap.test bit = false

@[simp] theorem mem_clearBelow : bit ∈ bitmap.clearBelow count ↔ bit < count ∧ bitmap.test bit = false := by
  simp [clearBelow]

/-- The least clear position among the `remaining` ones from `first` on. -/
def firstClear (bitmap : Bitmap) : (first remaining : Nat) → Option Nat
  | _, 0 => none
  | first, remaining + 1 =>
    if bitmap.test first then bitmap.firstClear (first + 1) remaining else some first

theorem firstClear_some (found : bitmap.firstClear first remaining = some bit) :
    bit < first + remaining ∧ bitmap.test bit = false := by
  induction remaining generalizing first with
  | zero => simp [firstClear] at found
  | succ remaining ih =>
    simp only [firstClear] at found
    split at found
    · obtain ⟨upper, free⟩ := ih found
      exact ⟨by omega, free⟩
    · rename_i free
      cases found
      exact ⟨by omega, by simpa using free⟩

theorem firstClear_none (absent : bitmap.firstClear first remaining = none) (lower : first ≤ bit)
    (upper : bit < first + remaining) : bitmap.test bit = true := by
  induction remaining generalizing first with
  | zero => omega
  | succ remaining ih =>
    simp only [firstClear] at absent
    split at absent
    · rename_i used
      by_cases same : bit = first
      · rw [same, used]
      · exact ih absent (by omega) (by omega)
    · contradiction

/-- The offset of the least set position among the `count` ones from `first`
on. -/
def firstSet (bitmap : Bitmap) (first : Nat) : (offset count : Nat) → Option Nat
  | _, 0 => none
  | offset, count + 1 =>
    if bitmap.test (first + offset) then some offset else bitmap.firstSet first (offset + 1) count

theorem firstSet_some (search : bitmap.firstSet first offset count = some found) :
    found < offset + count ∧ bitmap.test (first + found) = true := by
  induction count generalizing offset with
  | zero => simp [firstSet] at search
  | succ count ih =>
    simp only [firstSet] at search
    split at search
    · rename_i used
      cases search
      exact ⟨by omega, used⟩
    · have := ih search
      exact ⟨by omega, this.2⟩

theorem firstSet_none (absent : bitmap.firstSet first offset count = none) (lower : first + offset ≤ bit)
    (upper : bit < first + offset + count) : bitmap.test bit = false := by
  induction count generalizing offset with
  | zero => omega
  | succ count ih =>
    simp only [firstSet] at absent
    split at absent
    · contradiction
    · rename_i free
      by_cases same : bit = first + offset
      · rw [same]
        simpa using free
      · exact ih absent (by omega) (by omega)

def setRange (bitmap : Bitmap) (first count : Nat) : Bitmap :=
  (List.range count).foldl (fun bitmap offset => bitmap.set (first + offset)) bitmap

theorem setRange_succ :
    bitmap.setRange first (count + 1) = (bitmap.setRange first count).set (first + count) := by
  simp [setRange, List.range_succ]

theorem test_setRange : (bitmap.setRange first count).test other =
      (decide (first ≤ other ∧ other < first + count) || bitmap.test other) := by
  induction count with
  | zero => simp [setRange]
  | succ count ih =>
    have split : (first ≤ other ∧ other < first + (count + 1)) ↔
        other = first + count ∨ (first ≤ other ∧ other < first + count) := by omega
    rw [setRange_succ, test_set, ih, ← Bool.or_assoc]
    simp only [split, Bool.decide_or]

theorem clearBelow_setRange : (bitmap.setRange first size).clearBelow count =
      bitmap.clearBelow count \ Ico first (first + size) := by
  ext other
  simp only [mem_clearBelow, test_setRange, mem_sdiff, mem_Ico,
    Bool.or_eq_false_iff, decide_eq_false_iff_not]
  tauto

/-- Clear the positions of a window that lie below `limit`, lowest first. -/
def clearRange (bitmap : Bitmap) (limit first count : Nat) : Bitmap :=
  (List.range count).foldl
    (fun bitmap offset => if first + offset < limit then bitmap.clear (first + offset) else bitmap)
    bitmap

theorem clearRange_succ : bitmap.clearRange limit first (count + 1) =
      if first + count < limit then (bitmap.clearRange limit first count).clear (first + count)
      else bitmap.clearRange limit first count := by
  simp [clearRange, List.range_succ]

theorem test_clearRange : (bitmap.clearRange limit first count).test other =
      (!decide (first ≤ other ∧ other < first + count ∧ other < limit) && bitmap.test other) := by
  induction count with
  | zero =>
    have outside : ¬(first ≤ other ∧ other < first + 0 ∧ other < limit) := by omega
    rw [decide_eq_false outside]
    rfl
  | succ count ih =>
    rw [clearRange_succ]
    split
    · have split : (first ≤ other ∧ other < first + (count + 1) ∧ other < limit) ↔
          other = first + count ∨ (first ≤ other ∧ other < first + count ∧ other < limit) := by
        omega
      rw [test_clear, ih, ← Bool.and_assoc]
      simp only [split, Bool.decide_or, Bool.not_or]
    · have same : (first ≤ other ∧ other < first + (count + 1) ∧ other < limit) ↔
          (first ≤ other ∧ other < first + count ∧ other < limit) := by
        omega
      rw [ih]
      simp only [same]

theorem clearBelow_clearRange (bound : Ico first (first + count) ⊆ range limit) :
    (bitmap.clearRange limit first count).clearBelow limit =
      bitmap.clearBelow limit ∪ Ico first (first + count) := by
  ext other
  simp only [mem_clearBelow, test_clearRange, mem_union, mem_Ico,
    Bool.and_eq_false_iff, Bool.not_eq_false', decide_eq_true_eq]
  constructor
  · rintro ⟨below, window | free⟩
    · exact .inr ⟨window.1, window.2.1⟩
    · exact .inl ⟨below, free⟩
  · rintro (⟨below, free⟩ | window)
    · exact ⟨below, .inr free⟩
    · have below := mem_range.mp (bound (mem_Ico.mpr window))
      exact ⟨below, .inl ⟨window.1, window.2, below⟩⟩

end Bitmap

end Rucix.Data
