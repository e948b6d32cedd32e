namespace Rucix.Data

/-! Programs over a state that take fuel: a family `f fuel` of `StateT σ Option`
actions that fail when the fuel runs out.
-/

universe u v w

variable {σ : Type u} {τ : Type v} {α β : Type u}

/-- What `less` returns, `more` returns too. -/
def Below (less more : StateT σ Option α) : Prop :=
  ∀ state result, less.run state = some result → more.run state = some result

namespace Below

variable {less more : StateT σ Option α} {next next' : α → StateT σ Option β}

theorem refl : Below action action := fun _ _ done => done

theorem failure : Below failure action := nofun

theorem bind (first : Below less more) (second : ∀ value, Below (next value) (next' value)) :
    Below (less >>= next) (more >>= next') := by
  intro state result done
  obtain ⟨⟨value, middle⟩, ran, rest⟩ := Option.bind_eq_some_iff.mp done
  exact Option.bind_eq_some_iff.mpr ⟨(value, middle), first _ _ ran, second value _ _ rest⟩

end Below

/-- The action returns from every state, with a value for which `post` holds. -/
def Ensures (action : StateT σ Option α) (post : α → Prop) : Prop :=
  ∀ state, ∃ value final, action.run state = some (value, final) ∧ post value

theorem Ensures.pure {post : α → Prop} {value : α} (holds : post value) :
    Ensures (Pure.pure value : StateT σ Option α) post :=
  fun state => ⟨value, state, rfl, holds⟩

theorem Ensures.bind {post : β → Prop} {between : α → Prop} {action : StateT σ Option α}
    {next : α → StateT σ Option β} (first : Ensures action between)
    (second : ∀ value, between value → Ensures (next value) post) : Ensures (action >>= next) post := by
  intro state
  obtain ⟨value, middle, ran, holds⟩ := first state
  obtain ⟨result, final, rest, ensured⟩ := second value holds middle
  exact ⟨result, final, Option.bind_eq_some_iff.mpr ⟨_, ran, rest⟩, ensured⟩

def FuelMono (f : Nat → StateT σ Option α) : Prop := ∀ fuel, Below (f fuel) (f (fuel + 1))

theorem FuelMono.le {f : Nat → StateT σ Option α} (mono : FuelMono f) {less more : Nat} (order : less ≤ more) :
    Below (f less) (f more) := by
  induction order with
  | refl => exact .refl
  | step _ ih => exact fun state result done => mono _ state result (ih state result done)

/-- With enough fuel, `f` turns every state with view `before` into one with
view `after` and returns `value`. -/
def Finishes (view : σ → τ → Prop) (f : Nat → StateT σ Option α) (before : τ) (value : α)
    (after : τ) : Prop :=
  ∀ state, view state before →
    ∃ final bound, (∀ fuel, bound ≤ fuel → (f fuel).run state = some (value, final)) ∧
      view final after

/-- The same for a program that needs no fuel. -/
abbrev Yields (view : σ → τ → Prop) (action : StateT σ Option α) (before : τ) (value : α)
    (after : τ) : Prop :=
  Finishes view (fun _ => action) before value after

namespace Finishes

variable {view : σ → τ → Prop} {f : Nat → StateT σ Option α} {g : Nat → α → StateT σ Option β}
  {before middle after : τ} {value : α} {result : β}

theorem pure : Yields view (Pure.pure value) before value before :=
  fun state viewed => ⟨state, 0, fun _ _ => rfl, viewed⟩

theorem bind (first : Finishes view f before value middle)
    (second : Finishes view (fun fuel => g fuel value) middle result after) :
    Finishes view (fun fuel => f fuel >>= g fuel) before result after := by
  intro state viewed
  obtain ⟨between, bound, ran, viewed⟩ := first state viewed
  obtain ⟨final, bound', ran', viewed⟩ := second between viewed
  refine ⟨final, max bound bound', fun fuel enough => ?_, viewed⟩
  have one := ran fuel (Nat.le_trans (Nat.le_max_left ..) enough)
  have two := ran' fuel (Nat.le_trans (Nat.le_max_right ..) enough)
  simp only [StateT.run_bind, one]
  exact two

theorem succ (unfolded : Finishes view (fun fuel => f (fuel + 1)) before value after) :
    Finishes view f before value after := by
  intro state viewed
  obtain ⟨final, bound, ran, viewed⟩ := unfolded state viewed
  refine ⟨final, bound + 1, fun fuel enough => ?_, viewed⟩
  obtain ⟨less, rfl⟩ := Nat.exists_eq_add_of_le enough
  rw [show bound + 1 + less = bound + less + 1 by omega]
  exact ran (bound + less) (by omega)

theorem both {g : Nat → StateT σ Option β} {after' : τ} (first : Finishes view f before value after)
    (second : Finishes view g before result after') {state : σ} (viewed : view state before) :
    ∃ fuel final final', (f fuel).run state = some (value, final) ∧
      (g fuel).run state = some (result, final') := by
  obtain ⟨final, bound, ran, -⟩ := first state viewed
  obtain ⟨final', bound', ran', -⟩ := second state viewed
  exact ⟨max bound bound', final, final', ran _ (Nat.le_max_left ..), ran' _ (Nat.le_max_right ..)⟩

theorem result_eq (finishes : Finishes view f before value after) (mono : FuelMono f) (viewed : view state before)
    (done : (f fuel).run state = some (returned, final)) : returned = value ∧ view final after := by
  obtain ⟨other, bound, ran, viewed⟩ := finishes state viewed
  have same := (mono.le (Nat.le_max_left fuel bound) _ _ done).symm.trans
    (ran _ (Nat.le_max_right fuel bound))
  cases same
  exact ⟨rfl, viewed⟩

end Finishes

end Rucix.Data
