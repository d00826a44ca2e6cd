import Mathlib.Data.List.Basic

/-!
# Runs of a partial step function

A component with operations is a partial step function `step : σ → ι → Option σ`: `none` is an
operation that does not return (a panic), so no state follows it. `run` folds a list of operations
over a state. `run_preserves` is the invariant rule, the only induction a safety proof needs: a
property that holds at the start and that every step preserves holds at the end of every run.
`run_append` cuts a run in two, so a property of every prefix is a property of every run.

`Reaches` is the same for runs whose every step meets a condition on the state before it and the
operation, with its own invariant rule.
-/

set_option autoImplicit false

namespace Crpg.Lib

variable {σ ι : Type*}

/-- The state after the operations, or `none` as soon as one of them does not return. -/
def run (step : σ → ι → Option σ) : σ → List ι → Option σ
  | state, [] => some state
  | state, op :: ops => (step state op).bind fun next ↦ run step next ops

@[simp]
theorem run_nil (step : σ → ι → Option σ) (state : σ) : run step state [] = some state :=
  rfl

theorem run_cons_eq_some {step : σ → ι → Option σ} {state final : σ} {op : ι} {ops : List ι} :
    run step state (op :: ops) = some final ↔
      ∃ next, step state op = some next ∧ run step next ops = some final := by
  simp only [run, Option.bind_eq_some_iff]

theorem run_append (step : σ → ι → Option σ) (state : σ) (first second : List ι) :
    run step state (first ++ second) =
      (run step state first).bind fun middle ↦ run step middle second := by
  induction first generalizing state with
  | nil => rfl
  | cons op rest ih =>
    simp only [List.cons_append, run, Option.bind_assoc]
    exact congrArg _ (funext fun next ↦ ih next)

/-- The invariant rule. Assumes: a property that every returning step preserves. It holds at the
end of every run that starts where it holds. -/
theorem run_preserves {step : σ → ι → Option σ} {property : σ → Prop}
    (hstep : ∀ state op next, property state → step state op = some next → property next)
    {state final : σ} {ops : List ι} (hstart : property state)
    (hrun : run step state ops = some final) : property final := by
  induction ops generalizing state with
  | nil =>
    rw [run_nil, Option.some.injEq] at hrun
    exact hrun ▸ hstart
  | cons op rest ih =>
    obtain ⟨next, hnext, hrest⟩ := run_cons_eq_some.mp hrun
    exact ih (hstep state op next hstart hnext) hrest

inductive Reaches (step : σ → ι → Option σ) (allowed : σ → ι → Prop) (start : σ) : σ → Prop
  | refl : Reaches step allowed start start
  | step {state next : σ} {op : ι} (hreaches : Reaches step allowed start state)
      (hallowed : allowed state op) (hstep : step state op = some next) :
      Reaches step allowed start next

/-- The invariant rule of allowed runs. Assumes: a property that every allowed returning step
preserves. -/
theorem Reaches.preserves {step : σ → ι → Option σ} {allowed : σ → ι → Prop} {property : σ → Prop}
    (hpreserved : ∀ state op next, property state → allowed state op → step state op = some next →
      property next)
    {start state : σ} (hstart : property start) (hreaches : Reaches step allowed start state) :
    property state := by
  induction hreaches with
  | refl => exact hstart
  | step _ hallowed hstep ih => exact hpreserved _ _ _ ih hallowed hstep

end Crpg.Lib
