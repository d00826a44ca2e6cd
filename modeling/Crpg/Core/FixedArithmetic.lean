import Mathlib.Tactic.FieldSimp
import Crpg.Core.Fixed
import Crpg.Lib.MachineInteger

/-!
# Fixed-point arithmetic is exact

The arithmetic of `crpg-core/src/fixed.rs` over its 64-bit intermediates. In `Machine` an operation
is `none` where an intermediate overflows. None does for raw values of `i32`, and every saturating
operation is the exact rational result, floored to a multiple of `1/65536` and clamped (`saturate`);
the checked one is that result where it is in range (`represent`). Operations of `Fx16` without
intermediates are the same functions.
-/

set_option autoImplicit false

namespace Crpg.Core

open Crpg.Lib
open Option (bind_eq_bind bind_some map_map)

/-- The values of `i32` are those of 32 bits. -/
theorem inI32_iff_fits {value : ℤ} : InI32 value ↔ MachineInteger.Fits 32 value := by
  unfold InI32 i32Min i32Max MachineInteger.Fits
  omega

theorem InI32.abs_bound {value : ℤ} (hvalue : InI32 value) : |value| ≤ 2147483648 :=
  abs_le.mpr ⟨hvalue.1, hvalue.2.trans (by decide)⟩

namespace Fx16

/-! ### Operations over 64-bit intermediates -/

/-- `i32::try_from` on a raw value. -/
def tryFrom (raw : ℤ) : Option Fx16 := if InI32 raw then some ⟨raw⟩ else none

namespace Machine

open MachineInteger

def fromInt (value : ℤ) : Option Fx16 := (shl 64 value 16).map clampRaw

def toIntFloor (value : Fx16) : ℤ := shr value.raw 16

def floor (value : Fx16) : Option Fx16 := fromInt (toIntFloor value)

def ceil (value : Fx16) : Option Fx16 := do
  let shifted ← add 64 value.raw 65535
  let raw ← shl 64 (shr shifted 16) 16
  some (clampRaw raw)

def round (value : Fx16) : Option Fx16 := do
  let size ← MachineInteger.abs 64 value.raw
  let shifted ← add 64 size 32768
  let magnitude ← shl 64 (shr shifted 16) 16
  let raw ← mul 64 magnitude value.raw.sign
  some (clampRaw raw)

def abs (value : Fx16) : Option Fx16 := (MachineInteger.abs 64 value.raw).map clampRaw

def neg (value : Fx16) : Option Fx16 := (MachineInteger.neg 64 value.raw).map clampRaw

def checkedAdd (left right : Fx16) : Option (Option Fx16) := (add 64 left.raw right.raw).map tryFrom

def checkedSub (left right : Fx16) : Option (Option Fx16) := (sub 64 left.raw right.raw).map tryFrom

def checkedMul (left right : Fx16) : Option (Option Fx16) :=
  (mul 64 left.raw right.raw).map fun product ↦ tryFrom (shr product 16)

def divRaw (left right : Fx16) : Option ℤ := do
  let numerator ← shl 64 left.raw 16
  let quotient ← div 64 numerator right.raw
  let remainder ← rem 64 numerator right.raw
  if remainder ≠ 0 ∧ decide (numerator < 0) ≠ decide (right.raw < 0) then sub 64 quotient 1
  else some quotient

def checkedDiv (left right : Fx16) : Option (Option Fx16) :=
  if right = zero then some none else (divRaw left right).map tryFrom

def saturatingAdd (left right : Fx16) : Option Fx16 := (add 64 left.raw right.raw).map clampRaw

def saturatingSub (left right : Fx16) : Option Fx16 := (sub 64 left.raw right.raw).map clampRaw

def saturatingMul (left right : Fx16) : Option Fx16 :=
  (mul 64 left.raw right.raw).map fun product ↦ clampRaw (shr product 16)

def saturatingDiv (left right : Fx16) : Option Fx16 :=
  if right = zero then
    some (if left.raw.sign = -1 then ⟨i32Min⟩ else if left.raw.sign = 0 then zero else ⟨i32Max⟩)
  else (divRaw left right).map clampRaw

def fromRatio (numerator denominator : ℤ) : Option Fx16 := saturatingDiv ⟨numerator⟩ ⟨denominator⟩

end Machine

/-! ### Exact results -/

/-- The number a value stands for. -/
def toRat (value : Fx16) : ℚ := value.raw / 65536

def floorRaw (exact : ℚ) : ℤ := ⌊exact * 65536⌋

/-- An exact result floored and clamped. -/
def saturate (exact : ℚ) : Fx16 := clampRaw (floorRaw exact)

/-- An exact result floored, when it is in range. -/
def represent (exact : ℚ) : Option Fx16 := tryFrom (floorRaw exact)

/-- The nearest integer, halves away from zero. -/
def nearest (exact : ℚ) : ℤ := if 0 ≤ exact then ⌊exact + 1 / 2⌋ else -⌊-exact + 1 / 2⌋

theorem represent_eq (exact : ℚ) :
    represent exact = if InI32 (floorRaw exact) then some (saturate exact) else none := by
  unfold represent tryFrom
  split_ifs with hrange
  · unfold saturate clampRaw clampI32
    rw [min_eq_right hrange.2, max_eq_right hrange.1]
  · rfl

theorem clampI32_mono {first second : ℤ} (hle : first ≤ second) :
    clampI32 first ≤ clampI32 second :=
  max_le_max_left _ (min_le_min_left _ hle)

theorem saturate_mono {first second : ℚ} (hle : first ≤ second) :
    (saturate first).raw ≤ (saturate second).raw :=
  clampI32_mono (Int.floor_le_floor (mul_le_mul_of_nonneg_right hle (by norm_num)))

theorem floorRaw_intCast (value : ℤ) : floorRaw value = value * 65536 := by
  unfold floorRaw
  exact_mod_cast Int.floor_intCast (value * 65536)

theorem floorRaw_raw (raw : ℤ) : floorRaw (raw / 65536) = raw := by
  unfold floorRaw
  rw [div_mul_cancel₀ _ (by norm_num)]
  exact Int.floor_intCast raw

section Operations

variable {left right : Fx16}

theorem floorRaw_add : floorRaw (left.toRat + right.toRat) = left.raw + right.raw := by
  have hsum : left.toRat + right.toRat = ((left.raw + right.raw : ℤ) : ℚ) / 65536 := by
    unfold toRat
    push_cast
    ring
  rw [hsum, floorRaw_raw]

theorem floorRaw_sub : floorRaw (left.toRat - right.toRat) = left.raw - right.raw := by
  have hdiff : left.toRat - right.toRat = ((left.raw - right.raw : ℤ) : ℚ) / 65536 := by
    unfold toRat
    push_cast
    ring
  rw [hdiff, floorRaw_raw]

theorem floorRaw_mul : floorRaw (left.toRat * right.toRat) = left.raw * right.raw / 65536 := by
  have hproduct : left.toRat * right.toRat * 65536 =
      ((left.raw * right.raw : ℤ) : ℚ) / ((65536 : ℕ) : ℚ) := by
    unfold toRat
    push_cast
    ring
  unfold floorRaw
  rw [hproduct, Rat.floor_intCast_div_natCast]
  rfl

theorem floorRaw_div : floorRaw (left.toRat / right.toRat) =
    ⌊((left.raw * 65536 : ℤ) : ℚ) / right.raw⌋ := by
  have hquotient : left.toRat / right.toRat * 65536 =
      ((left.raw * 65536 : ℤ) : ℚ) / right.raw := by
    unfold toRat
    push_cast
    by_cases hzero : (right.raw : ℚ) = 0
    · simp [hzero]
    · field_simp
  unfold floorRaw
  rw [hquotient]

end Operations

theorem ne_zero_of_raw {value : Fx16} (hraw : value.raw ≠ 0) : value ≠ zero :=
  fun hzero ↦ hraw (congrArg raw hzero)

/-! ### No intermediate overflows -/

namespace Machine

open MachineInteger

/-- A value that is small against `i64`. -/
theorem fits_of_small {value bound : ℤ} (hsmall : |value| ≤ bound)
    (hbound : bound < 9223372036854775808) : Fits 64 value := fits_of_abs_le hsmall hbound

section Operations

variable {left right : Fx16} (hleft : InI32 left.raw) (hright : InI32 right.raw)

include hleft

theorem fits_shl : Fits 64 (left.raw * 2 ^ 16) := by
  apply @fits_of_small _ (2147483648 * 65536)
  · rw [abs_mul]
    exact mul_le_mul hleft.abs_bound (by decide) (abs_nonneg _) (by decide)
  · decide

theorem fromInt_eq : fromInt left.raw = some (saturate left.raw) := by
  unfold fromInt shl saturate
  rw [exact_of_fits (fits_shl hleft), floorRaw_intCast]
  rfl

omit hleft in
theorem toIntFloor_eq : toIntFloor left = ⌊left.toRat⌋ := by
  unfold toIntFloor toRat
  rw [shr_eq]
  exact (Rat.floor_intCast_div_natCast left.raw 65536).symm

theorem inI32_toIntFloor : InI32 (toIntFloor left) := by
  obtain ⟨hlow, hhigh⟩ := hleft
  unfold i32Min at hlow
  unfold i32Max at hhigh
  unfold toIntFloor InI32 i32Min i32Max
  rw [shr_eq]
  constructor <;> omega

theorem floor_eq : floor left = some (saturate ⌊left.toRat⌋) := by
  unfold floor
  rw [@fromInt_eq ⟨toIntFloor left⟩ (inI32_toIntFloor hleft), toIntFloor_eq]

theorem ceil_eq : ceil left = some (saturate ⌈left.toRat⌉) := by
  have hceil : ⌈left.toRat⌉ = (left.raw + 65535) / 65536 := by
    have hcast := Rat.ceil_intCast_div_natCast left.raw 65536
    unfold toRat
    rw [show (65536 : ℚ) = ((65536 : ℕ) : ℚ) by norm_num, hcast]
    omega
  obtain ⟨hlow, hhigh⟩ := hleft
  unfold i32Min at hlow
  unfold i32Max at hhigh
  have hsum : Fits 64 (left.raw + 65535) := by unfold Fits; constructor <;> omega
  have hraw : Fits 64 ((left.raw + 65535) / 2 ^ 16 * 2 ^ 16) := by
    unfold Fits
    constructor <;> omega
  unfold ceil add shl saturate
  rw [exact_of_fits hsum, bind_eq_bind, bind_some, shr_eq, exact_of_fits hraw, bind_some,
    floorRaw_intCast, hceil]
  rfl

omit hleft in
theorem nearest_eq : nearest left.toRat = (|left.raw| + 32768) / 65536 * left.raw.sign := by
  have hhalf (raw : ℤ) : ⌊(raw : ℚ) / 65536 + 1 / 2⌋ = (raw + 32768) / 65536 := by
    have hsum : (raw : ℚ) / 65536 + 1 / 2 = ((raw + 32768 : ℤ) : ℚ) / ((65536 : ℕ) : ℚ) := by
      push_cast
      ring
    rw [hsum, Rat.floor_intCast_div_natCast]
    rfl
  unfold nearest toRat
  by_cases hneg : left.raw < 0
  · have hnegative : ¬(0 : ℚ) ≤ left.raw / 65536 := by
      rw [not_le]
      exact div_neg_of_neg_of_pos (by exact_mod_cast hneg) (by norm_num)
    have hopposite : -((left.raw : ℚ) / 65536) = ((-left.raw : ℤ) : ℚ) / 65536 := by
      push_cast
      ring
    rw [if_neg hnegative, hopposite, hhalf, Int.sign_eq_neg_one_of_neg hneg, abs_of_neg hneg]
    ring
  · have hnonneg : (0 : ℚ) ≤ left.raw / 65536 :=
      div_nonneg (by exact_mod_cast not_lt.mp hneg) (by norm_num)
    rw [if_pos hnonneg, hhalf, abs_of_nonneg (not_lt.mp hneg)]
    by_cases hzero : left.raw = 0
    · rw [hzero]
      rfl
    · rw [Int.sign_eq_one_of_pos (lt_of_le_of_ne (not_lt.mp hneg) (Ne.symm hzero)), mul_one]

theorem round_eq : round left = some (saturate (nearest left.toRat)) := by
  have hbound := hleft.abs_bound
  have hnonneg := abs_nonneg left.raw
  have hsize : Fits 64 |left.raw| := by unfold Fits; constructor <;> omega
  have hsum : Fits 64 (|left.raw| + 32768) := by unfold Fits; constructor <;> omega
  have hmagnitude : Fits 64 ((|left.raw| + 32768) / 2 ^ 16 * 2 ^ 16) := by
    unfold Fits
    constructor <;> omega
  have hraw : Fits 64 ((|left.raw| + 32768) / 2 ^ 16 * 2 ^ 16 * left.raw.sign) := by
    apply @fits_of_small _ (2147483648 + 65536)
    · rw [abs_mul, abs_of_nonneg (by omega)]
      have hsign : |left.raw.sign| ≤ 1 := by
        rw [Int.abs_eq_natAbs, Int.natAbs_sign]
        split_ifs <;> decide
      calc (|left.raw| + 32768) / 2 ^ 16 * 2 ^ 16 * |left.raw.sign|
          ≤ (|left.raw| + 32768) / 2 ^ 16 * 2 ^ 16 * 1 :=
            mul_le_mul_of_nonneg_left hsign (by omega)
        _ ≤ 2147483648 + 65536 := by omega
    · decide
  unfold round MachineInteger.abs add shl mul saturate
  rw [exact_of_fits hsize, bind_eq_bind, bind_some, exact_of_fits hsum, bind_some, shr_eq,
    exact_of_fits hmagnitude, bind_some, exact_of_fits hraw, bind_some, floorRaw_intCast,
    nearest_eq, mul_right_comm]
  rfl

theorem abs_eq : abs left = some (saturate |left.toRat|) := by
  have hexact : |left.toRat| = ((|left.raw| : ℤ) : ℚ) / 65536 := by
    unfold toRat
    rw [abs_div, Int.cast_abs]
    norm_num
  have hfits : Fits 64 |left.raw| := fits_of_small ((abs_abs left.raw).trans_le hleft.abs_bound)
    (by decide)
  unfold abs MachineInteger.abs saturate
  rw [exact_of_fits hfits, hexact, floorRaw_raw]
  rfl

theorem neg_eq : neg left = some (saturate (-left.toRat)) := by
  have hexact : -left.toRat = ((-left.raw : ℤ) : ℚ) / 65536 := by
    unfold toRat
    push_cast
    ring
  have hfits : Fits 64 (-left.raw) := fits_of_small ((abs_neg left.raw).trans_le hleft.abs_bound)
    (by decide)
  unfold neg MachineInteger.neg saturate
  rw [exact_of_fits hfits, hexact, floorRaw_raw]
  rfl

include hright

theorem add_eq : add 64 left.raw right.raw = some (floorRaw (left.toRat + right.toRat)) := by
  rw [floorRaw_add]
  apply exact_of_fits
  apply @fits_of_small _ (2147483648 + 2147483648)
  · exact (abs_add_le _ _).trans (add_le_add hleft.abs_bound hright.abs_bound)
  · decide

theorem sub_eq : sub 64 left.raw right.raw = some (floorRaw (left.toRat - right.toRat)) := by
  rw [floorRaw_sub]
  apply exact_of_fits
  apply @fits_of_small _ (2147483648 + 2147483648)
  · exact (abs_sub _ _).trans (add_le_add hleft.abs_bound hright.abs_bound)
  · decide

theorem mul_eq : (mul 64 left.raw right.raw).map (fun product ↦ shr product 16) =
    some (floorRaw (left.toRat * right.toRat)) := by
  have hfits : Fits 64 (left.raw * right.raw) := by
    apply @fits_of_small _ (2147483648 * 2147483648)
    · rw [abs_mul]
      exact mul_le_mul hleft.abs_bound hright.abs_bound (abs_nonneg _) (by decide)
    · decide
  unfold mul
  rw [exact_of_fits hfits, floorRaw_mul, Option.map_some, shr_eq]
  rfl

omit hright in
theorem divRaw_eq (hzero : right.raw ≠ 0) :
    divRaw left right = some (floorRaw (left.toRat / right.toRat)) := by
  have hbound := hleft.abs_bound
  have hsize : |(left.raw * 65536).tdiv right.raw| ≤ 2147483648 * 65536 := by
    have hshrinks := Int.natAbs_tdiv_le_natAbs (left.raw * 65536) right.raw
    have hscaled : (left.raw * 65536).natAbs = left.raw.natAbs * 65536 := Int.natAbs_mul _ _
    rw [Int.abs_eq_natAbs] at hbound ⊢
    omega
  have hquotient : Fits 64 ((left.raw * 2 ^ 16).tdiv right.raw) :=
    fits_of_small hsize (by decide)
  have hless : Fits 64 ((left.raw * 2 ^ 16).tdiv right.raw - 1) := by
    apply @fits_of_small _ (2147483648 * 65536 + 1)
    · exact (abs_sub _ _).trans (add_le_add hsize (le_refl 1))
    · decide
  unfold divRaw shl
  rw [exact_of_fits (fits_shl hleft), bind_eq_bind, bind_some,
    div_of_fits hzero hquotient, bind_some, rem_of_fits hzero hquotient, bind_some,
    floorRaw_div, floor_eq_tdiv hzero]
  unfold sub
  rw [exact_of_fits hless, ← apply_ite some]
  rfl

theorem saturatingAdd_eq :
    saturatingAdd left right = some (saturate (left.toRat + right.toRat)) := by
  unfold saturatingAdd
  rw [add_eq hleft hright]
  rfl

theorem saturatingSub_eq :
    saturatingSub left right = some (saturate (left.toRat - right.toRat)) := by
  unfold saturatingSub
  rw [sub_eq hleft hright]
  rfl

/-- Saturating multiplication floors the exact product. -/
theorem saturatingMul_eq :
    saturatingMul left right = some (saturate (left.toRat * right.toRat)) := by
  have hmul := congrArg (Option.map clampRaw) (mul_eq hleft hright)
  rw [map_map] at hmul
  exact hmul

theorem checkedMul_eq : checkedMul left right = some (represent (left.toRat * right.toRat)) := by
  have hmul := congrArg (Option.map tryFrom) (mul_eq hleft hright)
  rw [map_map] at hmul
  exact hmul

omit hright in
theorem saturatingDiv_eq (hzero : right.raw ≠ 0) :
    saturatingDiv left right = some (saturate (left.toRat / right.toRat)) := by
  unfold saturatingDiv
  rw [if_neg (ne_zero_of_raw hzero), divRaw_eq hleft hzero]
  rfl

omit hright in
theorem checkedDiv_eq (hzero : right.raw ≠ 0) :
    checkedDiv left right = some (represent (left.toRat / right.toRat)) := by
  unfold checkedDiv
  rw [if_neg (ne_zero_of_raw hzero), divRaw_eq hleft hzero]
  rfl

/-- The operations of `Fx16` are the ones over 64-bit intermediates. -/
theorem eq_saturating : saturatingAdd left right = some (Fx16.saturatingAdd left right) ∧
      saturatingSub left right = some (Fx16.saturatingSub left right) ∧
      saturatingMul left right = some (Fx16.saturatingMul left right) ∧
      saturatingDiv left right = some (Fx16.saturatingDiv left right) := by
  refine ⟨?_, ?_, ?_, ?_⟩
  · rw [saturatingAdd_eq hleft hright, saturate, floorRaw_add]
    rfl
  · rw [saturatingSub_eq hleft hright, saturate, floorRaw_sub]
    rfl
  · rw [saturatingMul_eq hleft hright, saturate, floorRaw_mul]
    rfl
  · by_cases hzero : right.raw = 0
    · have hdivisor : right = zero := congrArg Fx16.mk hzero
      unfold saturatingDiv Fx16.saturatingDiv
      rw [if_pos hdivisor, if_pos hdivisor]
      simp only [Int.sign_eq_neg_one_iff_neg, Int.sign_eq_zero_iff_zero]
    · rw [saturatingDiv_eq hleft hzero, saturate, floorRaw_div, floor_eq_fdiv, Fx16.saturatingDiv,
        if_neg (ne_zero_of_raw hzero)]
      rfl

end Operations

end Machine

end Fx16

end Crpg.Core
