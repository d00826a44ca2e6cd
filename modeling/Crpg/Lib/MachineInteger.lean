import Mathlib.Data.Rat.Floor
import Mathlib.Tactic.Positivity

/-!
# Signed machine integers, with overflow

Integer operations at a width. An operation returns `none` where the result does not fit, so a
computation that returns has no overflow in any of its steps; `exact_of_fits` is the rule that
discharges a step. A left shift that loses bits counts as an overflow. Division truncates, and
`floor_eq_tdiv` says how a sign test turns it into the floor of the exact quotient.
-/

set_option autoImplicit false

namespace Crpg.Lib.MachineInteger

/-- The value is representable in two's complement at the width. -/
def Fits (width : ℕ) (value : ℤ) : Prop := -2 ^ (width - 1) ≤ value ∧ value < 2 ^ (width - 1)

instance (width : ℕ) (value : ℤ) : Decidable (Fits width value) :=
  inferInstanceAs (Decidable (_ ∧ _))

def exact (width : ℕ) (value : ℤ) : Option ℤ := if Fits width value then some value else none

/-- Addition. -/
def add (width : ℕ) (left right : ℤ) : Option ℤ := exact width (left + right)

/-- Subtraction. -/
def sub (width : ℕ) (left right : ℤ) : Option ℤ := exact width (left - right)

/-- Multiplication. -/
def mul (width : ℕ) (left right : ℤ) : Option ℤ := exact width (left * right)

/-- Negation. -/
def neg (width : ℕ) (value : ℤ) : Option ℤ := exact width (-value)

/-- The magnitude. -/
def abs (width : ℕ) (value : ℤ) : Option ℤ := exact width |value|

/-- Shift to the left. -/
def shl (width : ℕ) (value : ℤ) (count : ℕ) : Option ℤ := exact width (value * 2 ^ count)

/-- Arithmetic shift to the right. -/
def shr (value : ℤ) (count : ℕ) : ℤ := value >>> count

/-- Truncating division; a zero divisor does not return. -/
def div (width : ℕ) (left right : ℤ) : Option ℤ :=
  if right = 0 then none else exact width (left.tdiv right)

/-- The remainder of truncating division, which overflows where the division does. -/
def rem (width : ℕ) (left right : ℤ) : Option ℤ :=
  (div width left right).map fun _ ↦ left.tmod right

variable {width : ℕ} {left right value : ℤ}

theorem exact_of_fits (hfits : Fits width value) : exact width value = some value := if_pos hfits

theorem fits_of_abs_le {bound : ℤ} (habs : |value| ≤ bound) (hbound : bound < 2 ^ (width - 1)) :
    Fits width value :=
  ⟨by linarith [(abs_le.mp habs).1], by linarith [(abs_le.mp habs).2]⟩

theorem shr_eq (value : ℤ) (count : ℕ) : shr value count = value / 2 ^ count := by
  unfold shr
  rw [Int.shiftRight_eq_div_pow]
  norm_cast

theorem div_of_fits (hright : right ≠ 0) (hfits : Fits width (left.tdiv right)) :
    div width left right = some (left.tdiv right) := by
  unfold div
  rw [if_neg hright, exact_of_fits hfits]

theorem rem_of_fits (hright : right ≠ 0) (hfits : Fits width (left.tdiv right)) :
    rem width left right = some (left.tmod right) := by
  unfold rem
  rw [div_of_fits hright hfits]
  rfl

/-- A truncated quotient is no larger than its dividend, so it fits, the least value over minus one
apart. -/
theorem fits_tdiv (hleft : Fits width left) (hleast : left ≠ -2 ^ (width - 1) ∨ right ≠ -1) :
    Fits width (left.tdiv right) := by
  obtain ⟨hlow, hhigh⟩ := hleft
  have hsize := Int.natAbs_tdiv_le_natAbs left right
  by_cases hleftmost : left = -2 ^ (width - 1)
  · have hright : right ≠ -1 := hleast.resolve_left fun hne ↦ hne hleftmost
    by_cases hpositive : 0 ≤ right
    · have hnonpos : left.tdiv right ≤ 0 := by
        rw [hleftmost, Int.neg_tdiv, Left.neg_nonpos_iff]
        exact Int.tdiv_nonneg (by positivity) hpositive
      exact ⟨by omega, by omega⟩
    · have hhalf : left.natAbs.div right.natAbs ≤ left.natAbs / 2 :=
        Nat.div_le_div_left (by omega) (by decide)
      rw [← Int.natAbs_tdiv] at hhalf
      exact ⟨by omega, by omega⟩
  · exact ⟨by omega, by omega⟩

theorem floor_eq_fdiv (left right : ℤ) : ⌊(left : ℚ) / right⌋ = left.fdiv right := by
  have hnonneg (left right : ℤ) (hright : 0 ≤ right) : ⌊(left : ℚ) / right⌋ = left / right := by
    lift right to ℕ using hright
    exact Rat.floor_intCast_div_natCast left right
  by_cases hright : 0 ≤ right
  · rw [hnonneg left right hright, Int.fdiv_eq_ediv_of_nonneg left hright]
  · have hneg := hnonneg (-left) (-right) (by omega)
    push_cast at hneg
    rw [neg_div_neg_eq] at hneg
    rw [hneg, ← Int.fdiv_eq_ediv_of_nonneg _ (by omega), Int.neg_fdiv_neg]

/-- The floor of a quotient by a nonzero divisor, from the truncated one. -/
theorem floor_eq_tdiv (hzero : right ≠ 0) : ⌊(left : ℚ) / right⌋ =
      if left.tmod right ≠ 0 ∧ decide (left < 0) ≠ decide (right < 0) then left.tdiv right - 1
      else left.tdiv right := by
  rw [floor_eq_fdiv, Int.fdiv_eq_tdiv]
  by_cases hdvd : right ∣ left
  · rw [if_pos hdvd, if_neg fun h ↦ h.1 (Int.tmod_eq_zero_of_dvd hdvd), sub_zero]
  · have hrem : left.tmod right ≠ 0 := fun h ↦ hdvd (Int.dvd_of_tmod_eq_zero h)
    rw [if_neg hdvd]
    by_cases hleft : left < 0
    · by_cases hright : right < 0
      · have hsign := Int.sign_eq_neg_one_of_neg hright
        simp [not_le.mpr hleft, not_le.mpr hright, hleft, hright, hsign]
      · have hpos : 0 < right := lt_of_le_of_ne (not_lt.mp hright) hzero.symm
        have hsign := Int.sign_eq_one_of_pos hpos
        simp [not_le.mpr hleft, not_lt.mp hright, hleft, hright, hsign, hrem]
    · by_cases hright : right < 0
      · simp [not_lt.mp hleft, not_le.mpr hright, hleft, hright, hrem]
      · simp [not_lt.mp hleft, not_lt.mp hright, hleft, hright]

end Crpg.Lib.MachineInteger
