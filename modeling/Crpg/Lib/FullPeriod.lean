import Mathlib.Data.Int.ModEq
import Mathlib.Logic.Function.Iterate
import Mathlib.Tactic.Ring

/-!
# Linear congruential generators of full period

A generator `x ↦ a * x + c` modulo a power of two with `a` one modulo four and `c` odd visits every
state. Its `2 ^ k`-th iterate is affine with known coefficients (`affineStep_iterate_pow`), and so
changes a state by `2 ^ k` modulo `2 ^ (k + 1)`: an orbit that agrees with a target modulo `2 ^ k`
agrees with it modulo `2 ^ (k + 1)` after `2 ^ k` more steps, or agrees already
(`exists_iterate_modEq`).
-/

set_option autoImplicit false

namespace Crpg.Lib

/-- One step of the generator, before reduction. -/
def affineStep (multiplier increment state : ℤ) : ℤ := multiplier * state + increment

variable {multiplier increment : ℤ}

/-- The iterates of order `2 ^ k`. Assumes: the multiplier is one modulo four and the increment is
odd. -/
theorem affineStep_iterate_pow (hmultiplier : multiplier % 4 = 1) (hincrement : increment % 2 = 1)
    (k : ℕ) : ∃ slope half : ℤ, ∀ state, (affineStep multiplier increment)^[2 ^ k] state =
      (1 + 2 ^ (k + 2) * slope) * state + 2 ^ k * (1 + 2 * half) := by
  induction k with
  | zero =>
    refine ⟨multiplier / 4, increment / 2, fun state ↦ ?_⟩
    have hslope : multiplier = 1 + 2 ^ (0 + 2) * (multiplier / 4) := by omega
    have hhalf : increment = 2 ^ 0 * (1 + 2 * (increment / 2)) := by omega
    rw [← hslope, ← hhalf]
    rfl
  | succ k ih =>
    obtain ⟨slope, half, hiterate⟩ := ih
    refine ⟨slope + 2 ^ (k + 1) * slope ^ 2, half + 2 ^ k * slope * (1 + 2 * half),
      fun state ↦ ?_⟩
    rw [pow_succ, mul_two, Function.iterate_add_apply, hiterate, hiterate]
    ring

theorem iterate_modEq {modulus first second : ℤ} (hsame : first ≡ second [ZMOD modulus]) (n : ℕ) :
    (affineStep multiplier increment)^[n] first ≡
      (affineStep multiplier increment)^[n] second [ZMOD modulus] := by
  induction n generalizing first second with
  | zero => exact hsame
  | succ n ih => exact ih ((hsame.mul_left multiplier).add_right increment)

/-- The orbit of a state meets every residue within the period. -/
theorem exists_iterate_modEq (hmultiplier : multiplier % 4 = 1) (hincrement : increment % 2 = 1)
    (state target : ℤ) (k : ℕ) :
    ∃ n < 2 ^ k, (affineStep multiplier increment)^[n] state ≡ target [ZMOD 2 ^ k] := by
  induction k with
  | zero => exact ⟨0, Nat.one_pos, Int.modEq_one⟩
  | succ k ih =>
    obtain ⟨n, hn, hmeets⟩ := ih
    obtain ⟨quotient, hquotient⟩ := hmeets.dvd
    have htarget : target = (affineStep multiplier increment)^[n] state + 2 ^ k * quotient := by
      rw [← hquotient]
      ring
    by_cases heven : quotient % 2 = 0
    · refine ⟨n, by rw [pow_succ]; omega, ?_⟩
      apply Int.modEq_iff_dvd.mpr
      refine ⟨quotient / 2, ?_⟩
      have hhalf : quotient = 2 * (quotient / 2) := by omega
      rw [htarget, pow_succ, add_sub_cancel_left, mul_assoc, ← hhalf]
    · obtain ⟨slope, half, hiterate⟩ := affineStep_iterate_pow hmultiplier hincrement k
      refine ⟨2 ^ k + n, by rw [pow_succ]; omega, ?_⟩
      rw [Function.iterate_add_apply, hiterate, htarget]
      generalize (affineStep multiplier increment)^[n] state = reached
      apply Int.modEq_iff_dvd.mpr
      refine ⟨quotient / 2 - 2 * slope * reached - half, ?_⟩
      have hhalf : quotient = 2 * (quotient / 2) + 1 := by omega
      generalize quotient / 2 = rest at hhalf ⊢
      rw [hhalf]
      ring

end Crpg.Lib
