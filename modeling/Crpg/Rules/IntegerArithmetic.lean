import Crpg.Core.FixedArithmetic
import Crpg.Rules.FoldAgreement

/-!
# Integer and fixed-point arithmetic

The integer helpers of `crpg-rules/src/derived.rs` over their machine intermediates, next to the
fixed-point operations of the core. Division and scaling floor the exact quotient and product and
clamp. `arithmetic_exact` gathers what both kinds of operation compute.
-/

set_option autoImplicit false

namespace Crpg.Rules

open Crpg.Core Crpg.Lib

/-! ### Helpers over machine intermediates -/

namespace Machine

open MachineInteger

/-- `int_divide`, in 32-bit arithmetic; the outer `none` is an overflow. -/
def intDivide (left right : ℤ) : Option (Option ℤ) :=
  if right = 0 then some none
  else if left = i32Min ∧ right = -1 then some (some i32Max)
  else do
    let quotient ← div 32 left right
    let remainder ← rem 32 left right
    if remainder ≠ 0 ∧ decide (left < 0) ≠ decide (right < 0) then (sub 32 quotient 1).map some
    else some (some quotient)

/-- `int_scale`, in 64-bit arithmetic; `none` is an overflow. -/
def intScale (value : ℤ) (factor : Fx16) : Option ℤ := do
  let product ← mul 64 value factor.raw
  let quotient ← div 64 product 65536
  let remainder ← rem 64 product 65536
  (if remainder ≠ 0 ∧ product < 0 then sub 64 quotient 1 else some quotient).map clampI32

end Machine

open MachineInteger

theorem clampI32_of_inI32 {value : ℤ} (hvalue : InI32 value) : clampI32 value = value := by
  unfold clampI32
  rw [min_eq_right hvalue.2, max_eq_right hvalue.1]

/-- What a division takes off its quotient stays in range. -/
theorem fits_quotient_pred {left right : ℤ} (hleft : InI32 left) (hrem : left.tmod right ≠ 0) :
    Fits 32 (left.tdiv right - 1) := by
  obtain ⟨hlow, hhigh⟩ := inI32_iff_fits.mp hleft
  by_cases hzero : right = 0
  · rw [hzero, Int.tdiv_zero]
    decide
  · have hwide : 2 ≤ right.natAbs := by
      by_contra hsmall
      have hunit : right = 1 ∨ right = -1 := by omega
      apply hrem
      apply hunit.elim
      · intro hone
        rw [hone, Int.tmod_one]
      · intro hminus
        rw [hminus, Int.tmod_neg, Int.tmod_one]
    have hhalf : left.natAbs.div right.natAbs ≤ left.natAbs / 2 :=
      Nat.div_le_div_left hwide (by decide)
    rw [← Int.natAbs_tdiv] at hhalf
    exact ⟨by omega, by omega⟩

/-- No step of a division overflows. -/
theorem machine_intDivide {left : ℤ} (hleft : InI32 left) (right : ℤ) :
    Machine.intDivide left right = some (intDivide left right) := by
  unfold Machine.intDivide intDivide
  by_cases hzero : right = 0
  · rw [if_pos hzero, if_pos hzero]
  · rw [if_neg hzero, if_neg hzero]
    by_cases hleast : left = i32Min ∧ right = -1
    · rw [if_pos hleast, if_pos hleast]
    · have hfits : Fits 32 (left.tdiv right) :=
        fits_tdiv (inI32_iff_fits.mp hleft) (not_and_or.mp hleast)
      rw [if_neg hleast, if_neg hleast, div_of_fits hzero hfits, rem_of_fits hzero hfits,
        Option.bind_eq_bind, Option.bind_some, Option.bind_some]
      dsimp only
      split_ifs with hfloors
      · unfold sub
        rw [exact_of_fits (fits_quotient_pred hleft hfloors.1), Option.map_some]
      · rfl

/-- Division by a nonzero divisor is the floor of the exact quotient, clamped. -/
theorem intDivide_eq {left right : ℤ} (hleft : InI32 left) (hzero : right ≠ 0) :
    intDivide left right = some (clampI32 ⌊(left : ℚ) / right⌋) := by
  unfold intDivide
  rw [if_neg hzero]
  split_ifs with hleast hfloors
  · rw [hleast.1, hleast.2]
    norm_num [i32Min, i32Max, clampI32]
  · have hrange := inI32_iff_fits.mpr (fits_quotient_pred hleft hfloors.1)
    rw [floor_eq_tdiv hzero, if_pos hfloors, clampI32_of_inI32 hrange]
  · have hrange := inI32_iff_fits.mpr
      (fits_tdiv (inI32_iff_fits.mp hleft) (not_and_or.mp hleast))
    rw [floor_eq_tdiv hzero, if_neg hfloors, clampI32_of_inI32 hrange]

theorem machine_intScale {value : ℤ} {factor : Fx16} (hvalue : InI32 value)
    (hfactor : InI32 factor.raw) :
    Machine.intScale value factor = some (intScale value factor) := by
  have hsize : |value * factor.raw| ≤ 2147483648 * 2147483648 := by
    rw [abs_mul]
    exact mul_le_mul hvalue.abs_bound hfactor.abs_bound (abs_nonneg _) (by decide)
  have hproduct : Fits 64 (value * factor.raw) := fits_of_abs_le hsize (by decide)
  have hshrinks := Int.natAbs_tdiv_le_natAbs (value * factor.raw) 65536
  have hbound : |(value * factor.raw).tdiv 65536| ≤ 2147483648 * 2147483648 := by
    rw [Int.abs_eq_natAbs] at hsize ⊢
    omega
  have hquotient : Fits 64 ((value * factor.raw).tdiv 65536) := fits_of_abs_le hbound (by decide)
  have hless : Fits 64 ((value * factor.raw).tdiv 65536 - 1) := by
    apply @fits_of_abs_le _ _ (2147483648 * 2147483648 + 1)
    · exact (abs_sub _ _).trans (add_le_add hbound (le_refl 1))
    · decide
  unfold Machine.intScale mul
  rw [exact_of_fits hproduct, Option.bind_eq_bind, Option.bind_some,
    div_of_fits (by decide) hquotient, Option.bind_some, rem_of_fits (by decide) hquotient,
    Option.bind_some]
  unfold sub
  rw [exact_of_fits hless, ← apply_ite some]
  rfl

/-! ### What arithmetic computes -/

section Monotone

variable {left right other : Fx16}

theorem toRat_le (hle : left.raw ≤ other.raw) : left.toRat ≤ other.toRat :=
  div_le_div_of_nonneg_right (by exact_mod_cast hle) (by norm_num)

theorem toRat_nonneg (hnonneg : 0 ≤ left.raw) : 0 ≤ left.toRat :=
  div_nonneg (by exact_mod_cast hnonneg) (by norm_num)

end Monotone

/-- Arithmetic is exact. Assumes: raw operands of `i32`. No operation overflows an intermediate.
Each saturating operation is the exact rational result, floored to a raw unit (up for `ceil`, to the
nearest integer for `round`) and clamped; each checked one is that result where it is in range, and
then the saturated one. Addition is monotone in both arguments, and multiplication by an argument
that is not negative in the other. The integer helpers floor the exact quotient and product and
clamp. -/
theorem arithmetic_exact {left right : Fx16} (hleft : InI32 left.raw) (hright : InI32 right.raw) :
    (Fx16.Machine.saturatingAdd left right = some (Fx16.saturate (left.toRat + right.toRat)) ∧
      Fx16.Machine.saturatingSub left right = some (Fx16.saturate (left.toRat - right.toRat)) ∧
      Fx16.Machine.saturatingMul left right = some (Fx16.saturate (left.toRat * right.toRat)) ∧
      (right.raw ≠ 0 →
        Fx16.Machine.saturatingDiv left right = some (Fx16.saturate (left.toRat / right.toRat))) ∧
      Fx16.Machine.floor left = some (Fx16.saturate ⌊left.toRat⌋) ∧
      Fx16.Machine.ceil left = some (Fx16.saturate ⌈left.toRat⌉) ∧
      Fx16.Machine.round left = some (Fx16.saturate (Fx16.nearest left.toRat)) ∧
      Fx16.Machine.abs left = some (Fx16.saturate |left.toRat|) ∧
      Fx16.Machine.neg left = some (Fx16.saturate (-left.toRat)) ∧
      Fx16.Machine.fromInt left.raw = some (Fx16.saturate left.raw) ∧ (right.raw ≠ 0 →
        Fx16.Machine.fromRatio left.raw right.raw = some (Fx16.saturate (left.raw / right.raw)))) ∧
    (Fx16.Machine.checkedAdd left right = some (Fx16.represent (left.toRat + right.toRat)) ∧
      Fx16.Machine.checkedSub left right = some (Fx16.represent (left.toRat - right.toRat)) ∧
      Fx16.Machine.checkedMul left right = some (Fx16.represent (left.toRat * right.toRat)) ∧
      (right.raw ≠ 0 →
        Fx16.Machine.checkedDiv left right = some (Fx16.represent (left.toRat / right.toRat))) ∧
      ∀ exact, Fx16.represent exact =
        if InI32 (Fx16.floorRaw exact) then some (Fx16.saturate exact) else none) ∧
    (∀ other : Fx16, InI32 other.raw → left.raw ≤ other.raw →
      ∃ low high, Fx16.Machine.saturatingAdd left right = some low ∧
        Fx16.Machine.saturatingAdd right left = some low ∧
        Fx16.Machine.saturatingAdd other right = some high ∧
        Fx16.Machine.saturatingAdd right other = some high ∧ low.raw ≤ high.raw) ∧
    (∀ other : Fx16, InI32 other.raw → left.raw ≤ other.raw → 0 ≤ right.raw →
      ∃ low high, Fx16.Machine.saturatingMul left right = some low ∧
        Fx16.Machine.saturatingMul right left = some low ∧
        Fx16.Machine.saturatingMul other right = some high ∧
        Fx16.Machine.saturatingMul right other = some high ∧ low.raw ≤ high.raw) ∧
    (right.raw ≠ 0 → Machine.intDivide left.raw right.raw =
      some (some (clampI32 ⌊(left.raw : ℚ) / right.raw⌋))) ∧
    Machine.intScale left.raw right = some (clampI32 ⌊(left.raw : ℚ) * right.toRat⌋) := by
  refine ⟨⟨Fx16.Machine.saturatingAdd_eq hleft hright, Fx16.Machine.saturatingSub_eq hleft hright,
      Fx16.Machine.saturatingMul_eq hleft hright, Fx16.Machine.saturatingDiv_eq hleft,
      Fx16.Machine.floor_eq hleft, Fx16.Machine.ceil_eq hleft, Fx16.Machine.round_eq hleft,
      Fx16.Machine.abs_eq hleft, Fx16.Machine.neg_eq hleft, Fx16.Machine.fromInt_eq hleft, ?_⟩,
    ⟨?_, ?_, Fx16.Machine.checkedMul_eq hleft hright, Fx16.Machine.checkedDiv_eq hleft,
      Fx16.represent_eq⟩, ?_, ?_, ?_, ?_⟩
  · intro hzero
    unfold Fx16.Machine.fromRatio
    rw [Fx16.Machine.saturatingDiv_eq hleft hzero]
    unfold Fx16.toRat
    rw [div_div_div_cancel_right₀ (by norm_num)]
  · unfold Fx16.Machine.checkedAdd
    rw [Fx16.Machine.add_eq hleft hright]
    rfl
  · unfold Fx16.Machine.checkedSub
    rw [Fx16.Machine.sub_eq hleft hright]
    rfl
  · intro other hother hle
    refine ⟨_, _, Fx16.Machine.saturatingAdd_eq hleft hright, ?_,
      Fx16.Machine.saturatingAdd_eq hother hright, ?_,
      Fx16.saturate_mono (add_le_add_left (toRat_le hle) _)⟩
    · rw [Fx16.Machine.saturatingAdd_eq hright hleft, add_comm]
    · rw [Fx16.Machine.saturatingAdd_eq hright hother, add_comm]
  · intro other hother hle hnonneg
    refine ⟨_, _, Fx16.Machine.saturatingMul_eq hleft hright, ?_,
      Fx16.Machine.saturatingMul_eq hother hright, ?_,
      Fx16.saturate_mono (mul_le_mul_of_nonneg_right (toRat_le hle) (toRat_nonneg hnonneg))⟩
    · rw [Fx16.Machine.saturatingMul_eq hright hleft, mul_comm]
    · rw [Fx16.Machine.saturatingMul_eq hright hother, mul_comm]
  · intro hzero
    rw [machine_intDivide hleft, intDivide_eq hleft hzero]
  · rw [machine_intScale hleft hright, intScale_eq]
    unfold Fx16.toRat
    rw [mul_div_assoc]

/-- One half times three quarters. -/
theorem half_of_three_quarters : Fx16.Machine.saturatingMul ⟨32768⟩ ⟨49152⟩ =
    some (Fx16.saturate (Fx16.toRat ⟨32768⟩ * Fx16.toRat ⟨49152⟩)) :=
  (@arithmetic_exact ⟨32768⟩ ⟨49152⟩ (by decide) (by decide)).1.2.2.1

end Crpg.Rules
