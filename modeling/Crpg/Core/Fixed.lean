import Mathlib.Algebra.Order.Ring.Int
import Mathlib.Order.Lattice

/-!
# Saturating integers and fixed point

`crpg-core/src/fixed.rs` and the saturating `i32`, `u32` and `u64` operations of the standard
library that the rules and the simulation use. A signed 32-bit value is an integer here and every
operation that could leave the range clamps as the source does; an unsigned counter is a natural
number with the saturation explicit.
-/

set_option autoImplicit false

namespace Crpg.Core

/-- `i32::MIN`. -/
def i32Min : ℤ := -2147483648

/-- `i32::MAX`. -/
def i32Max : ℤ := 2147483647

/-- `u64::MAX`. -/
def u64Max : ℕ := 18446744073709551615

/-- An integer lies in the range of `i32`. -/
def InI32 (value : ℤ) : Prop := i32Min ≤ value ∧ value ≤ i32Max

instance (value : ℤ) : Decidable (InI32 value) := inferInstanceAs (Decidable (_ ∧ _))

/-- `clamp(i32::MIN, i32::MAX)`. -/
def clampI32 (value : ℤ) : ℤ := max i32Min (min i32Max value)

/-- `i32::saturating_add`. -/
def i32SaturatingAdd (left right : ℤ) : ℤ := clampI32 (left + right)

/-- A saturating addition of unsigned counters with the largest value `limit`. -/
def saturatingAdd (limit left right : ℕ) : ℕ := min limit (left + right)

theorem inI32_clampI32 (value : ℤ) : InI32 (clampI32 value) :=
  ⟨le_max_left _ _, max_le (by decide) (min_le_left _ _)⟩

theorem saturatingAdd_le (limit left right : ℕ) : saturatingAdd limit left right ≤ limit :=
  min_le_left _ _

/-- A signed fixed-point number with 16 fractional bits, by its raw integer. -/
structure Fx16 where
  raw : ℤ
deriving DecidableEq

namespace Fx16

def zero : Fx16 := ⟨0⟩

def clampRaw (raw : ℤ) : Fx16 := ⟨clampI32 raw⟩

def saturatingAdd (left right : Fx16) : Fx16 := clampRaw (left.raw + right.raw)

/-- Subtracts and clamps. -/
def saturatingSub (left right : Fx16) : Fx16 := clampRaw (left.raw - right.raw)

/-- Multiplies, floors and clamps. -/
def saturatingMul (left right : Fx16) : Fx16 := clampRaw (left.raw * right.raw / 65536)

/-- `div_raw`: the floored quotient of the scaled numerator. -/
def divRaw (left right : Fx16) : ℤ := (left.raw * 65536).fdiv right.raw

/-- Divides, floors and clamps; a zero divisor saturates by the numerator's sign. -/
def saturatingDiv (left right : Fx16) : Fx16 :=
  if right = zero then
    if left.raw < 0 then ⟨i32Min⟩ else if left.raw = 0 then zero else ⟨i32Max⟩
  else clampRaw (divRaw left right)

end Fx16

end Crpg.Core
