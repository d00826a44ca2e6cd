import Mathlib.Algebra.Order.Group.Nat

/-!
# Saturating counters

A counter that shadows a total: additions, saturating subtractions and resets. A saturating
subtraction that takes more than the counter holds loses the difference silently, so the counter
remembers whether that ever happened. `Counter.Exact` is the invariant of an accounting proof: the
counter holds its total and never saturated. Its lemmas say how each operation keeps it, with the
side condition that makes a subtraction exact.
-/

set_option autoImplicit false

namespace Crpg.Lib

/-- An unsigned counter with a mark that a saturating subtraction lost something. -/
structure Counter where
  value : ℕ
  saturated : Bool
deriving DecidableEq

namespace Counter

def zero : Counter := ⟨0, false⟩

def add (counter : Counter) (amount : ℕ) : Counter := ⟨counter.value + amount, counter.saturated⟩

/-- `saturating_sub`: subtracts from the counter, stopping at zero. -/
def saturatingSub (counter : Counter) (amount : ℕ) : Counter :=
  ⟨counter.value - amount, counter.saturated || decide (counter.value < amount)⟩

/-- Sets the counter to zero. -/
def reset (counter : Counter) : Counter := ⟨0, counter.saturated⟩

structure Exact (counter : Counter) (total : ℕ) : Prop where
  value : counter.value = total
  unsaturated : counter.saturated = false

theorem exact_zero : zero.Exact 0 := ⟨rfl, rfl⟩

variable {counter : Counter} {total : ℕ}

theorem Exact.add (hexact : counter.Exact total) {amount after : ℕ}
    (hafter : after = total + amount) : (counter.add amount).Exact after :=
  ⟨by rw [hafter, ← hexact.value]; rfl, hexact.unsaturated⟩

theorem Exact.saturatingSub (hexact : counter.Exact total) {amount after : ℕ}
    (hafter : after + amount = total) : (counter.saturatingSub amount).Exact after := by
  have hvalue := hexact.value
  refine ⟨?_, ?_⟩
  · change counter.value - amount = after
    omega
  · change (counter.saturated || decide (counter.value < amount)) = false
    rw [hexact.unsaturated, Bool.false_or, decide_eq_false_iff_not]
    omega

theorem Exact.reset (hexact : counter.Exact total) : counter.reset.Exact 0 :=
  ⟨rfl, hexact.unsaturated⟩

theorem Exact.congr (hexact : counter.Exact total) {after : ℕ} (hafter : after = total) :
    counter.Exact after :=
  hafter ▸ hexact

end Counter

end Crpg.Lib
