import Mathlib.Data.Int.CardIntervalMod
import Crpg.Core.RangeDraw

/-!
# Range draws are uniform

The draws of `crpg-core/src/rng.rs` that `gen_range_u32` and `next_u32` compose to, and what a range
draw returns: the first output of the stream at the threshold or above, reduced by the bound
(`genRangeU32_eq`). The accepted outputs are a whole number of runs of the bound, so they hit every
residue equally often (`card_accepted`). The signed draw shifts its range to start at zero and back;
neither its `expect` nor its checked arithmetic fails.
-/

set_option autoImplicit false

namespace Crpg.Core

open Crpg.Lib

namespace Pcg32

/-- `next_u64`: two draws, the first in the high half. -/
def nextU64 (stream : Pcg32) : UInt64 × Pcg32 :=
  let high := stream.nextU32
  let low := high.2.nextU32
  ((high.1.toUInt64 <<< 32) ||| low.1.toUInt64, low.2)

/-- `gen_bool`: one bit. -/
def genBool (stream : Pcg32) : Bool × Pcg32 :=
  let drawn := stream.nextU32
  (drawn.1 &&& 1 ≠ 0, drawn.2)

/-- The bits of an `i32` in the order of the integers: `(value as u32) ^ 0x8000_0000`. -/
def ordered (value : Int32) : UInt32 := value.toUInt32 ^^^ 0x80000000

/-- `gen_range_i32`; `none` is a draw without end, a failed `expect`, or an overflow of the checked
difference or sum. -/
def genRangeI32 (stream : Pcg32) (lo hi : Int32) : Option (Int32 × Pcg32) :=
  if hi ≤ lo then some (lo, stream)
  else if ordered hi < ordered lo then none
  else
    let span := (ordered hi).toUInt64 - (ordered lo).toUInt64 + 1
    let offset :=
      if span = 4294967296 then some stream.nextU32
      else if span.toUInt32 = 0 then none
      else stream.genRangeU32 span.toUInt32
    offset.bind fun drawn ↦
      if (ordered lo).toNat + drawn.1.toNat < 2 ^ 32 then
        some (((ordered lo + drawn.1) ^^^ 0x80000000).toInt32, drawn.2)
      else none

/-! ### The single cycle -/

/-- The step of a stream permutes its states. Assumes: an odd increment. -/
theorem stepState_bijective {inc : UInt64} (hodd : inc % 2 = 1) :
    Function.Bijective (stepState inc) := by
  have hsurjective : Function.Surjective (stepState inc) := by
    intro target
    obtain ⟨n, -, hmeets⟩ := exists_stepState hodd (stepState inc target) target
    refine ⟨(stepState inc)^[n] target, ?_⟩
    rw [← Function.iterate_succ_apply' (stepState inc), Function.iterate_succ_apply]
    exact hmeets
  have hfinite : Finite UInt64 := Finite.of_injective UInt64.toFin fun _ _ ↦ UInt64.toFin_inj.mp
  exact ⟨Finite.injective_iff_surjective.mpr hsurjective, hsurjective⟩

/-! ### What a draw returns -/

theorem first_of_redraw {bound : UInt32} {fuel : ℕ} {stream : Pcg32} {drawn : UInt32 × Pcg32}
    (hdraw : redraw bound fuel stream = some drawn) :
    ∃ n < fuel, (∀ m < n, output ((stepState stream.inc)^[m] stream.state) < threshold bound) ∧
      threshold bound ≤ output ((stepState stream.inc)^[n] stream.state) ∧
      drawn.1 = output ((stepState stream.inc)^[n] stream.state) % bound ∧
      drawn.2 = ⟨(stepState stream.inc)^[n + 1] stream.state, stream.inc⟩ := by
  induction fuel generalizing stream with
  | zero => exact nomatch hdraw
  | succ fuel ih =>
    obtain ⟨state, inc⟩ := stream
    rw [redraw_succ] at hdraw
    by_cases haccepted : threshold bound ≤ output state
    · rw [if_pos haccepted, Option.some.injEq] at hdraw
      refine ⟨0, Nat.succ_pos fuel, fun m hm ↦ absurd hm (Nat.not_lt_zero m), haccepted, ?_, ?_⟩
      · rw [← hdraw, Function.iterate_zero_apply]
      · rw [← hdraw, Function.iterate_one]
    · rw [if_neg haccepted] at hdraw
      obtain ⟨n, hn, hrejected, hfirst, hvalue, hnext⟩ := @ih ⟨stepState inc state, inc⟩ hdraw
      dsimp only at hrejected hfirst hvalue hnext
      refine ⟨n + 1, Nat.succ_lt_succ hn, fun m hm ↦ ?_, ?_, ?_, ?_⟩
      · cases m with
        | zero => exact UInt32.not_le.mp haccepted
        | succ m =>
          rw [Function.iterate_succ_apply]
          exact hrejected m (Nat.lt_of_succ_lt_succ hm)
      · rw [Function.iterate_succ_apply]
        exact hfirst
      · rw [Function.iterate_succ_apply]
        exact hvalue
      · rw [Function.iterate_succ_apply]
        exact hnext

/-! ### Uniformity -/

/-- The threshold leaves a whole number of runs of the bound above it. -/
theorem threshold_eq {bound : UInt32} (hbound : bound ≠ 0) :
    (threshold bound).toNat = 2 ^ 32 % bound.toNat := by
  have hpos : 0 < bound.toNat := by
    rw [Nat.pos_iff_ne_zero]
    intro hzero
    exact hbound (UInt32.toNat_inj.mp hzero)
  have hlt := bound.toNat_lt
  unfold threshold
  rw [UInt32.toNat_mod, UInt32.toNat_sub]
  show ((2 ^ 32 - bound.toNat + 0) % 2 ^ 32) % bound.toNat = 2 ^ 32 % bound.toNat
  rw [Nat.add_zero, Nat.mod_eq_of_lt (Nat.sub_lt (by decide) hpos), ← Nat.mod_eq_sub_mod hlt.le]

theorem card_residue_run (start : ℕ) {bound residue : ℕ} (hresidue : residue < bound) :
    ((Finset.Ico start (start + bound)).filter fun value ↦ value % bound = residue).card = 1 := by
  have hmem : residue ∈ (Finset.Ico start (start + bound)).image (· % bound) := by
    rw [Nat.image_Ico_mod]
    exact Finset.mem_range.mpr hresidue
  obtain ⟨value, hvalue, hmod⟩ := Finset.mem_image.mp hmem
  refine Finset.card_eq_one.mpr ⟨value, ?_⟩
  ext other
  rw [Finset.mem_filter, Finset.mem_singleton]
  constructor
  · intro hother
    exact Nat.mod_injOn_Ico start bound (Finset.mem_coe.mpr hother.1) (Finset.mem_coe.mpr hvalue)
      (hother.2.trans hmod.symm)
  · intro heq
    rw [heq]
    exact ⟨hvalue, hmod⟩

theorem card_residue_runs (start runs : ℕ) {bound residue : ℕ} (hresidue : residue < bound) :
    ((Finset.Ico start (start + runs * bound)).filter
      fun value ↦ value % bound = residue).card = runs := by
  induction runs with
  | zero => simp
  | succ runs ih =>
    have hfirst : start ≤ start + runs * bound := Nat.le_add_right _ _
    have hlast : start + runs * bound ≤ start + runs * bound + bound := Nat.le_add_right _ _
    rw [Nat.succ_mul, ← Nat.add_assoc, ← Finset.Ico_union_Ico_eq_Ico hfirst hlast,
      Finset.filter_union, Finset.card_union_of_disjoint, ih, card_residue_run _ hresidue]
    exact Finset.disjoint_filter_filter (Finset.Ico_disjoint_Ico_consecutive _ _ _)

theorem card_accepted {bound : UInt32} (hbound : bound ≠ 0) {residue : ℕ}
    (hresidue : residue < bound.toNat) : ((Finset.Ico (threshold bound).toNat (2 ^ 32)).filter
      fun value ↦ value % bound.toNat = residue).card = 2 ^ 32 / bound.toNat := by
  have hruns := card_residue_runs (2 ^ 32 % bound.toNat) (2 ^ 32 / bound.toNat) hresidue
  rw [Nat.mul_comm, Nat.mod_add_div] at hruns
  rw [threshold_eq hbound]
  exact hruns

/-! ### The signed range -/

/-- Setting the top bit of a value that does not have it. -/
theorem xor_of_lt {value : ℕ} (hlow : value < 2 ^ 31) : value ^^^ 2 ^ 31 = value + 2 ^ 31 := by
  have hor := Nat.two_pow_add_eq_or_of_lt hlow 1
  rw [Nat.mul_one] at hor
  rw [Nat.add_comm, hor]
  apply Nat.eq_of_testBit_eq
  intro bit
  rw [Nat.testBit_xor, Nat.testBit_or, Nat.testBit_two_pow]
  by_cases hbit : 31 = bit
  · subst hbit
    simp [Nat.testBit_lt_two_pow hlow]
  · simp [hbit]

/-- Flipping the top bit and reading the result as an `i32` shifts the value down by `2 ^ 31`. -/
theorem toInt_xor (value : UInt32) :
    (value ^^^ 0x80000000).toInt32.toInt = (value.toNat : ℤ) - 2 ^ 31 := by
  have hbits : (value ^^^ 0x80000000).toInt32.toInt =
      ((value ^^^ 0x80000000).toBitVec).toInt := rfl
  have hnat : ((value ^^^ 0x80000000).toBitVec).toNat = value.toNat ^^^ 2 ^ 31 :=
    UInt32.toNat_xor value 0x80000000
  have hlt := value.toNat_lt
  rw [hbits, BitVec.toInt_eq_toNat_cond, hnat]
  by_cases hlow : value.toNat < 2 ^ 31
  · rw [xor_of_lt hlow, if_neg (by omega)]
    push_cast
    omega
  · obtain ⟨rest, hrest⟩ := Nat.exists_eq_add_of_le (Nat.le_of_not_lt hlow)
    have hback : value.toNat ^^^ 2 ^ 31 = rest := by
      rw [hrest, Nat.add_comm, ← xor_of_lt (by omega), Nat.xor_assoc, Nat.xor_self, Nat.xor_zero]
    rw [hback, if_pos (by omega), hrest]
    push_cast
    omega

theorem ordered_eq (value : Int32) : ((ordered value).toNat : ℤ) = value.toInt + 2 ^ 31 := by
  have hflipped := toInt_xor (ordered value)
  have hback : ordered value ^^^ 0x80000000 = value.toUInt32 := by
    unfold ordered
    rw [UInt32.xor_assoc, UInt32.xor_self, UInt32.xor_zero]
  rw [hback, Int32.toInt32_toUInt32] at hflipped
  omega

/-- A signed draw returns a value of its range, and draws nothing when the range has at most one.
Assumes: an odd increment. -/
theorem genRangeI32_mem {stream : Pcg32} (hodd : stream.IsOdd) {lo hi : Int32} (hrange : lo ≤ hi) :
    ∃ drawn next, stream.genRangeI32 lo hi = some (drawn, next) ∧ lo ≤ drawn ∧ drawn ≤ hi := by
  unfold genRangeI32
  by_cases hsingle : hi ≤ lo
  · rw [if_pos hsingle]
    exact ⟨lo, stream, rfl, Int32.le_refl lo, hrange⟩
  · have hlo := ordered_eq lo
    have hhi := ordered_eq hi
    have hsize := (ordered hi).toNat_lt
    have hlt : (ordered lo).toNat < (ordered hi).toNat := by
      rw [Int32.le_iff_toInt_le] at hsingle
      omega
    rw [if_neg hsingle, if_neg (fun hswapped ↦ by
      rw [UInt32.lt_iff_toNat_lt] at hswapped
      omega)]
    dsimp only
    have hspan : ((ordered hi).toUInt64 - (ordered lo).toUInt64 + 1).toNat =
        (ordered hi).toNat - (ordered lo).toNat + 1 := by
      have hle : (ordered lo).toUInt64 ≤ (ordered hi).toUInt64 := by
        rw [UInt64.le_iff_toNat_le, UInt32.toNat_toUInt64, UInt32.toNat_toUInt64]
        exact hlt.le
      rw [UInt64.toNat_add, UInt64.toNat_sub_of_le _ _ hle, UInt32.toNat_toUInt64,
        UInt32.toNat_toUInt64]
      show ((ordered hi).toNat - (ordered lo).toNat + 1) % 2 ^ 64 = _
      exact Nat.mod_eq_of_lt (by omega)
    have hoffset : ∃ offset : UInt32 × Pcg32,
        (if (ordered hi).toUInt64 - (ordered lo).toUInt64 + 1 = 4294967296 then
            some stream.nextU32
          else if ((ordered hi).toUInt64 - (ordered lo).toUInt64 + 1).toUInt32 = 0 then none
          else stream.genRangeU32 ((ordered hi).toUInt64 - (ordered lo).toUInt64 + 1).toUInt32) =
          some offset ∧ offset.1.toNat ≤ (ordered hi).toNat - (ordered lo).toNat := by
      by_cases hfull : (ordered hi).toUInt64 - (ordered lo).toUInt64 + 1 = 4294967296
      · rw [if_pos hfull]
        rw [hfull] at hspan
        have hwidth : (4294967296 : UInt64).toNat = 2 ^ 32 := rfl
        have hoffset := stream.nextU32.1.toNat_lt
        exact ⟨stream.nextU32, rfl, by omega⟩
      · have hbelow : (ordered hi).toNat - (ordered lo).toNat + 1 < 2 ^ 32 := by
          have hne : (ordered hi).toNat - (ordered lo).toNat + 1 ≠ 2 ^ 32 := by
            intro heq
            exact hfull (UInt64.toNat_inj.mp (hspan.trans heq))
          omega
        have hbound : ((ordered hi).toUInt64 - (ordered lo).toUInt64 + 1).toUInt32.toNat =
            (ordered hi).toNat - (ordered lo).toNat + 1 := by
          rw [UInt64.toNat_toUInt32, hspan]
          exact Nat.mod_eq_of_lt hbelow
        have hne : ((ordered hi).toUInt64 - (ordered lo).toUInt64 + 1).toUInt32 ≠ 0 := by
          intro hzero
          rw [hzero] at hbound
          exact absurd hbound (Nat.succ_ne_zero _).symm
        rw [if_neg hfull, if_neg hne]
        obtain ⟨drawn, hdrawn⟩ := Option.isSome_iff_exists.mp (genRangeU32_isSome hodd _)
        have hpos := UInt32.pos_iff_ne_zero.mpr hne
        have hlow := UInt32.lt_iff_toNat_lt.mp (redraw_lt hpos hdrawn)
        exact ⟨drawn, hdrawn, by omega⟩
    obtain ⟨⟨offset, next⟩, hdrawn, hwithin⟩ := hoffset
    dsimp only at hwithin
    rw [hdrawn, Option.bind_some]
    dsimp only
    rw [if_pos (by omega)]
    refine ⟨_, next, rfl, ?_, ?_⟩
    · rw [Int32.le_iff_toInt_le, toInt_xor, UInt32.toNat_add, Nat.mod_eq_of_lt (by omega)]
      push_cast
      omega
    · rw [Int32.le_iff_toInt_le, toInt_xor, UInt32.toNat_add, Nat.mod_eq_of_lt (by omega)]
      push_cast
      omega

/-- Bounded draws. Assumes: an odd increment. The step of the stream permutes its states in a single
cycle. A range draw returns the first output that is not rejected, reduced by the bound, within the
period; the accepted outputs hit every residue equally often. A signed draw returns a value of its
range, without a failed `expect` or an overflow, and leaves the stream when the range has at most
one value. -/
theorem bounded_draws {stream : Pcg32} (hodd : stream.IsOdd) :
    (Function.Bijective (stepState stream.inc) ∧
      ∀ state target, ∃ n < 2 ^ 64, (stepState stream.inc)^[n] state = target) ∧
    (∀ bound : UInt32, bound ≠ 0 → ∃ drawn, stream.genRangeU32 bound = some drawn ∧
      drawn.1 < bound ∧
      ∃ n < 2 ^ 64, (∀ m < n, output ((stepState stream.inc)^[m] stream.state) < threshold bound) ∧
        threshold bound ≤ output ((stepState stream.inc)^[n] stream.state) ∧
        drawn.1 = output ((stepState stream.inc)^[n] stream.state) % bound ∧
        drawn.2 = ⟨(stepState stream.inc)^[n + 1] stream.state, stream.inc⟩) ∧
    (∀ bound : UInt32, bound ≠ 0 → ∀ residue < bound.toNat,
      ((Finset.Ico (threshold bound).toNat (2 ^ 32)).filter
        fun value ↦ value % bound.toNat = residue).card = 2 ^ 32 / bound.toNat) ∧
    (∀ lo hi : Int32, lo ≤ hi → ∃ drawn next,
      stream.genRangeI32 lo hi = some (drawn, next) ∧ lo ≤ drawn ∧ drawn ≤ hi) ∧
    ∀ lo hi : Int32, hi ≤ lo → stream.genRangeI32 lo hi = some (lo, stream) := by
  refine ⟨⟨stepState_bijective hodd, exists_stepState hodd⟩, fun bound hbound ↦ ?_,
    fun bound hbound residue hresidue ↦ card_accepted hbound hresidue,
    fun lo hi hrange ↦ genRangeI32_mem hodd hrange, fun lo hi hrange ↦ if_pos hrange⟩
  obtain ⟨drawn, hdrawn⟩ := Option.isSome_iff_exists.mp (genRangeU32_isSome hodd bound)
  exact ⟨drawn, hdrawn, redraw_lt (UInt32.pos_iff_ne_zero.mpr hbound) hdrawn,
    first_of_redraw hdrawn⟩

/-- A die of six sides from the stream of state zero and increment one. -/
theorem six_sided_draw : ∃ drawn, genRangeU32 ⟨0, 1⟩ 6 = some drawn ∧ drawn.1 < 6 := by
  have hodd : IsOdd ⟨0, 1⟩ := show (1 : UInt64) % 2 = 1 by decide
  obtain ⟨drawn, hdrawn, hlow, -⟩ := (bounded_draws hodd).2.1 6 (by decide)
  exact ⟨drawn, hdrawn, hlow⟩

end Pcg32

end Crpg.Core
