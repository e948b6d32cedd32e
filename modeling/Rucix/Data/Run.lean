import Mathlib.Logic.Function.Basic

namespace Rucix.Data

/-! Finite runs of labelled transition relations, with the newest label last. -/

universe u v w

variable {σ : Type u} {τ : Type v} {α : Type w}

inductive Run (step : σ → α → σ → Prop) (start : σ) : List α → σ → Prop where
  | nil : Run step start [] start
  | snoc {trace : List α} {before after : σ} {label : α}
      (earlier : Run step start trace before) (last : step before label after) :
      Run step start (trace ++ [label]) after

variable {step : σ → α → σ → Prop} {start final : σ} {trace : List α}

/-- An inductive invariant holds at the end of every run. -/
theorem Run.invariant {Inv : σ → Prop} (run : Run step start trace final) (initial : Inv start)
    (preserved : ∀ before label after, Inv before → step before label after → Inv after) : Inv final := by
  induction run with
  | nil => exact initial
  | snoc earlier last ih => exact preserved _ _ _ ih last

/-- Step by step, a run is matched by one of another system with the same labels. -/
theorem Run.simulate {Rel : σ → τ → Prop} (run : Run step start trace final) (initial : Rel start abstract)
    (matched : ∀ before label after view, Rel before view → step before label after →
      ∃ next, other view label next ∧ Rel after next) : ∃ view, Run other abstract trace view ∧ Rel final view := by
  induction run with
  | nil => exact ⟨abstract, .nil, initial⟩
  | snoc earlier last ih =>
    obtain ⟨view, matching, related⟩ := ih
    obtain ⟨next, stepped, related⟩ := matched _ _ _ view related last
    exact ⟨next, .snoc matching stepped, related⟩

theorem Run.mono (run : Run step start trace final)
    (weaker : ∀ before label after, step before label after → other before label after) :
    Run other start trace final := by
  induction run with
  | nil => exact .nil
  | snoc earlier last ih => exact .snoc ih (weaker _ _ _ last)

theorem Run.trans (first : Run step start trace middle) (second : Run step middle later final) :
    Run step start (trace ++ later) final := by
  induction second with
  | nil => simpa using first
  | snoc earlier last ih =>
    rw [← List.append_assoc]
    exact .snoc ih last

/-- Perform the labels of a trace with an executable step function, stopping
at the first label that is not enabled. -/
def execute (step : σ → α → Option σ) (start : σ) : List α → Option σ
  | [] => some start
  | label :: rest => (step start label).bind fun next => execute step next rest

/-- Executing a trace to its end is a run of the step relation. -/
theorem Run.of_execute (step : σ → α → Option σ) (executed : execute step start trace = some final) :
    Run (fun before label after => step before label = some after) start trace final := by
  induction trace generalizing start with
  | nil =>
    cases executed
    exact .nil
  | cons label rest ih =>
    cases first : step start label with
    | none => simp [execute, first] at executed
    | some next =>
      have tail : execute step next rest = some final := by
        simpa only [execute, first, Option.bind_some] using executed
      exact (Run.snoc .nil first).trans (ih tail)

/-- Every label of a trace is a step when performed by an update function. -/
def Performs (step : σ → α → σ → Prop) (apply : σ → α → σ) : σ → List α → Prop
  | _, [] => True
  | start, label :: rest =>
    step start label (apply start label) ∧ Performs step apply (apply start label) rest

theorem Run.of_performs (performs : Performs step apply start trace) :
    Run step start trace (trace.foldl apply start) := by
  induction trace generalizing start with
  | nil => exact .nil
  | cons label rest ih => exact (Run.snoc .nil performs.1).trans (ih performs.2)

end Rucix.Data
