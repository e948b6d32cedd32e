import Mathlib.Tactic.ByContra

namespace Rucix.Data

/-! Programs that fault, with the exact condition under which they do not. -/

universe u

variable {σ ε α β : Type u} {state : σ} {inside more : Prop} {post : α → σ → Prop} {final : β → σ → Prop}
  {action : StateT σ (Except ε) α} {next : α → StateT σ (Except ε) β}

/-- From `state` the program faults unless `inside` holds, and otherwise ends with
`post`. -/
structure Guards (action : StateT σ (Except ε) α) (state : σ) (inside : Prop) (post : α → σ → Prop) :
    Prop where
  succeeds : inside → ∃ value after, action.run state = .ok (value, after) ∧ post value after
  faults : ¬inside → ∃ fault, action.run state = .error fault

namespace Guards

theorem pure {value : α} (holds : post value state) :
    Guards (Pure.pure value : StateT σ (Except ε) α) state True post :=
  ⟨fun _ => ⟨value, state, rfl, holds⟩, fun never => absurd trivial never⟩

theorem fault (fault : ε) : Guards (throw fault : StateT σ (Except ε) α) state False post :=
  ⟨False.elim, fun _ => ⟨fault, rfl⟩⟩

theorem get : Guards (MonadState.get : StateT σ (Except ε) σ) state True fun value after =>
      value = state ∧ after = state :=
  ⟨fun _ => ⟨state, state, rfl, rfl, rfl⟩, fun never => absurd trivial never⟩

theorem modify (change : σ → σ) :
    Guards (MonadState.modifyGet fun state => (PUnit.unit, change state) : StateT σ (Except ε) PUnit) state
      True fun _ after => after = change state :=
  ⟨fun _ => ⟨PUnit.unit, change state, rfl, rfl⟩, fun never => absurd trivial never⟩

theorem bind (first : Guards action state inside post)
    (second : inside → ∀ value after, post value after → Guards (next value) after more final) :
    Guards (action >>= next) state (inside ∧ more) final := by
  constructor
  · rintro ⟨isInside, isMore⟩
    obtain ⟨value, middle, ran, holds⟩ := first.succeeds isInside
    obtain ⟨result, after, done, finished⟩ := (second isInside value middle holds).succeeds isMore
    refine ⟨result, after, ?_, finished⟩
    rw [StateT.run_bind, ran]
    exact done
  · intro outside
    by_cases isInside : inside
    · obtain ⟨value, middle, ran, holds⟩ := first.succeeds isInside
      obtain ⟨fault, failed⟩ := (second isInside value middle holds).faults fun isMore =>
        outside ⟨isInside, isMore⟩
      refine ⟨fault, ?_⟩
      rw [StateT.run_bind, ran]
      exact failed
    · obtain ⟨fault, failed⟩ := first.faults isInside
      refine ⟨fault, ?_⟩
      rw [StateT.run_bind, failed]
      rfl

theorem congr {other : Prop} (same : inside ↔ other) (guards : Guards action state inside post) :
    Guards action state other post :=
  ⟨fun isOther => guards.succeeds (same.mpr isOther), fun outside =>
    guards.faults fun isInside => outside (same.mp isInside)⟩

theorem mono (guards : Guards action state inside post)
    (implies : ∀ value after, post value after → weaker value after) : Guards action state inside weaker := by
  refine ⟨fun isInside => ?_, guards.faults⟩
  obtain ⟨value, after, ran, holds⟩ := guards.succeeds isInside
  exact ⟨value, after, ran, implies value after holds⟩

/-- A first program that never faults adds no condition. -/
theorem bind_true (first : Guards action state True post)
    (second : ∀ value after, post value after → Guards (next value) after more final) :
    Guards (action >>= next) state more final :=
  (first.bind fun _ => second).congr (iff_of_eq (true_and more))

/-- Nor does a second one. -/
theorem bind_of (first : Guards action state inside post)
    (second : inside → ∀ value after, post value after → Guards (next value) after True final) :
    Guards (action >>= next) state inside final :=
  (first.bind second).congr (iff_of_eq (and_true inside))

/-- After a program that only reads, the state is the same. -/
theorem bind_same (first : Guards action state inside fun _ after => after = state)
    (second : inside → ∀ value, Guards (next value) state more final) :
    Guards (action >>= next) state (inside ∧ more) final :=
  first.bind fun isInside value after same => by
    rw [same]
    exact second isInside value

theorem bind_value {value : α} (first : Guards action state inside fun result after => result = value ∧ after = state)
    (second : inside → Guards (next value) state more final) : Guards (action >>= next) state (inside ∧ more) final :=
  first.bind fun isInside result after same => by
    rw [same.1, same.2]
    exact second isInside

/-- One branch never faults. -/
theorem when {condition : Prop} [Decidable condition] {other : StateT σ (Except ε) α}
    (yes : condition → Guards action state inside post) (no : ¬condition → Guards other state True post) :
    Guards (if condition then action else other) state (condition → inside) post := by
  by_cases holds : condition
  · rw [if_pos holds]
    exact (yes holds).congr (forall_prop_of_true holds).symm
  · rw [if_neg holds]
    exact (no holds).congr (iff_of_true trivial fun also => absurd also holds)

theorem otherwise {condition : Prop} [Decidable condition] {other : StateT σ (Except ε) α}
    (yes : condition → Guards other state True post) (no : ¬condition → Guards action state inside post) :
    Guards (if condition then other else action) state (¬condition → inside) post := by
  by_cases holds : condition
  · rw [if_pos holds]
    exact (yes holds).congr (iff_of_true trivial fun also => absurd holds also)
  · rw [if_neg holds]
    exact (no holds).congr (forall_prop_of_true holds).symm

theorem ok_iff (guards : Guards action state inside post) : (∃ result, action.run state = .ok result) ↔ inside := by
  constructor
  · rintro ⟨result, ran⟩
    by_contra outside
    obtain ⟨fault, failed⟩ := guards.faults outside
    rw [ran] at failed
    cases failed
  · intro isInside
    obtain ⟨value, after, ran, -⟩ := guards.succeeds isInside
    exact ⟨(value, after), ran⟩

theorem post_of_ok (guards : Guards action state inside post) (ran : action.run state = .ok (value, after)) :
    post value after := by
  obtain ⟨result, final, done, holds⟩ := guards.succeeds (guards.ok_iff.mp ⟨_, ran⟩)
  cases ran.symm.trans done
  exact holds

end Guards

variable {inv : σ → Prop}

/-- The program never faults in states with `inv`, and keeps it. -/
def Safe (inv : σ → Prop) (action : StateT σ (Except ε) α) : Prop :=
  ∀ state, inv state → Guards action state True fun _ after => inv after

namespace Safe

theorem pure : Safe inv (Pure.pure value : StateT σ (Except ε) α) :=
  fun _ holds => .pure holds

theorem bind (first : Safe inv action) (second : ∀ value, Safe inv (next value)) : Safe inv (action >>= next) :=
  fun state holds => (first state holds).bind_true fun value after kept => second value after kept

/-- What is read from the state has the invariant, too. -/
theorem get_bind {next : σ → StateT σ (Except ε) β} (second : ∀ state, inv state → Safe inv (next state)) :
    Safe inv (get >>= next) :=
  fun state holds => (Guards.get).bind_true fun
    | _, _, ⟨rfl, rfl⟩ => second state holds state holds

end Safe

end Rucix.Data
