import Mathlib.Logic.Function.Basic

namespace Rucix.Data

/-! Loops that leave either at their head or from their body.  `fuel` bounds how
often the body is entered.
-/

universe u v

structure Loop (σ : Type u) (ρ : Type v) where
  /-- The test at the head: a result when the loop ends there. -/
  exit : σ → Option ρ
  /-- One turn: the state for the next turn, or a result. -/
  body : σ → σ ⊕ ρ

namespace Loop

variable {σ : Type u} {ρ : Type v} {loop : Loop σ ρ} {start state next : σ} {result : ρ} {fuel : Nat}

def run (loop : Loop σ ρ) : (fuel : Nat) → σ → Option ρ
  | 0, state => loop.exit state
  | fuel + 1, state =>
    match loop.exit state with
    | some result => some result
    | none =>
      match loop.body state with
      | .inr result => some result
      | .inl next => loop.run fuel next

inductive Reaches (loop : Loop σ ρ) (start : σ) : σ → Prop where
  | start : Reaches loop start start
  | turn {state next : σ} (earlier : Reaches loop start state) (stays : loop.exit state = none)
      (turned : loop.body state = .inl next) : Reaches loop start next

theorem run_turn (stays : loop.exit state = none) (turned : loop.body state = .inl next) :
    loop.run (fuel + 1) state = loop.run fuel next := by
  simp only [run, stays, turned]

/-- A measure that every turn lowers bounds the number of turns. -/
theorem run_returns (measure : σ → Nat) (lowers : ∀ state next, loop.Reaches start state → loop.exit state = none →
      loop.body state = .inl next → measure next < measure state)
    (ends : ∀ state, loop.Reaches start state → measure state = 0 → loop.exit state ≠ none)
    (reached : loop.Reaches start state) (enough : measure state ≤ fuel) :
    ∃ result, loop.run fuel state = some result := by
  induction fuel generalizing state with
  | zero => exact Option.ne_none_iff_exists'.mp (ends state reached (Nat.le_zero.mp enough))
  | succ fuel ih =>
    cases left : loop.exit state with
    | some result => exact ⟨result, by simp only [run, left]⟩
    | none =>
      cases turned : loop.body state with
      | inr result => exact ⟨result, by simp only [run, left, turned]⟩
      | inl next =>
        have lower := lowers state next reached left turned
        rw [run_turn left turned]
        exact ih (reached.turn left turned) (Nat.le_of_lt_succ (Nat.lt_of_lt_of_le lower enough))

/-- What holds of a result wherever the loop may be left. -/
theorem run_result (Good : ρ → Prop)
    (atHead : ∀ state result, loop.Reaches start state → loop.exit state = some result → Good result)
    (inBody : ∀ state result, loop.Reaches start state → loop.exit state = none →
      loop.body state = .inr result → Good result) (reached : loop.Reaches start state)
    (returned : loop.run fuel state = some result) : Good result := by
  induction fuel generalizing state with
  | zero => exact atHead state result reached returned
  | succ fuel ih =>
    cases left : loop.exit state with
    | some value =>
      simp only [run, left, Option.some.injEq] at returned
      exact returned ▸ atHead state value reached left
    | none =>
      cases turned : loop.body state with
      | inr value =>
        simp only [run, left, turned, Option.some.injEq] at returned
        exact returned ▸ inBody state value reached left turned
      | inl next =>
        rw [run_turn left turned] at returned
        exact ih (reached.turn left turned) returned

theorem run_mono (returned : loop.run fuel state = some result) (order : fuel ≤ more) :
    loop.run more state = some result := by
  induction fuel generalizing state more with
  | zero =>
    cases more with
    | zero => exact returned
    | succ more =>
      simp only [run] at returned ⊢
      rw [returned]
  | succ fuel ih =>
    obtain ⟨more, rfl⟩ : ∃ smaller, more = smaller + 1 := ⟨more - 1, by omega⟩
    cases left : loop.exit state with
    | some value => simpa only [run, left] using returned
    | none =>
      cases turned : loop.body state with
      | inr value => simpa only [run, turned] using returned
      | inl next =>
        rw [run_turn left turned] at returned ⊢
        exact ih returned (Nat.le_of_succ_le_succ order)

theorem run_unique (first : loop.run fuel state = some result) (second : loop.run other state = some value) :
    result = value := by
  have left := run_mono first (Nat.le_max_left fuel other)
  have right := run_mono second (Nat.le_max_right fuel other)
  exact Option.some.inj (left.symm.trans right)

/-- A loop that comes back to where it was never ends. -/
theorem run_cycle (stays : loop.exit state = none) (turned : loop.body state = .inl state) (fuel : Nat) :
    loop.run fuel state = none := by
  induction fuel with
  | zero => exact stays
  | succ fuel ih => rw [run_turn stays turned, ih]

end Loop

end Rucix.Data
