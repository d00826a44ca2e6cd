import Mathlib.Data.UInt
import Crpg.Core.Rng
import Crpg.Lib.FullPeriod

/-!
# Range draws end

The rejection loop of `gen_range_u32` returns. Streams have an odd increment, which construction and
decoding see to, so the generator has full period; `fullState` is a state whose output no bound
rejects, and the loop cannot pass it by. Draws keep the increment.
-/

set_option autoImplicit false

namespace Crpg.Core

open Crpg.Lib

namespace Pcg32

def IsOdd (stream : Pcg32) : Prop := stream.inc % 2 = 1

/-- A state whose output has all bits set. -/
def fullState : UInt64 := 0x7fffe0000000000

theorem output_fullState : output fullState = 0xffffffff := by decide +kernel

/-- The states of a stream, draw after draw. -/
def stepState (inc state : UInt64) : UInt64 := state * pcg32Multiplier + inc

theorem redraw_succ (bound : UInt32) (fuel : ℕ) (stream : Pcg32) : redraw bound (fuel + 1) stream =
      if threshold bound ≤ output stream.state then
        some (output stream.state % bound, ⟨stepState stream.inc stream.state, stream.inc⟩)
      else redraw bound fuel ⟨stepState stream.inc stream.state, stream.inc⟩ :=
  rfl

/-- The stepped state is the affine step, modulo `2 ^ 64`. -/
theorem stepState_modEq (inc state : UInt64) (n : ℕ) : (((stepState inc)^[n] state).toNat : ℤ) ≡
      (affineStep pcg32Multiplier.toNat inc.toNat)^[n] state.toNat [ZMOD 2 ^ 64] := by
  induction n generalizing state with
  | zero => exact Int.ModEq.refl _
  | succ n ih =>
    rw [Function.iterate_succ_apply, Function.iterate_succ_apply]
    apply (ih _).trans
    apply iterate_modEq
    rw [stepState, UInt64.toNat_add, UInt64.toNat_mul, affineStep]
    push_cast
    rw [mul_comm (pcg32Multiplier.toNat : ℤ)]
    exact (Int.mod_modEq _ _).trans ((Int.mod_modEq _ _).add_right _)

/-- Every state is reached within the period. -/
theorem exists_stepState {inc : UInt64} (hodd : inc % 2 = 1) (state target : UInt64) :
    ∃ n < 2 ^ 64, (stepState inc)^[n] state = target := by
  have hmultiplier : (pcg32Multiplier.toNat : ℤ) % 4 = 1 := by decide +kernel
  have hincrement : (inc.toNat : ℤ) % 2 = 1 := by
    have hnat : (inc % 2).toNat = 1 := by rw [hodd]; rfl
    rw [UInt64.toNat_mod] at hnat
    exact_mod_cast hnat
  obtain ⟨n, hn, hmeets⟩ :=
    exists_iterate_modEq hmultiplier hincrement state.toNat target.toNat 64
  refine ⟨n, hn, ?_⟩
  have hsame := (stepState_modEq inc state n).trans hmeets
  apply UInt64.toNat_inj.mp
  have hlt := ((stepState inc)^[n] state).toNat_lt
  have hlt' := target.toNat_lt
  have heq : ((((stepState inc)^[n] state).toNat : ℤ)) % 2 ^ 64 = (target.toNat : ℤ) % 2 ^ 64 := hsame
  omega

theorem rejected_of_redraw {bound : UInt32} {fuel : ℕ} {stream : Pcg32}
    (hnone : redraw bound fuel stream = none) :
    ∀ n < fuel, output ((stepState stream.inc)^[n] stream.state) < threshold bound := by
  induction fuel generalizing stream with
  | zero => exact fun n hn ↦ absurd hn (Nat.not_lt_zero n)
  | succ fuel ih =>
    rw [redraw_succ] at hnone
    split_ifs at hnone with haccepted
    intro n hn
    cases n with
    | zero => exact UInt32.not_le.mp haccepted
    | succ n =>
      rw [Function.iterate_succ_apply]
      exact ih hnone n (by omega)

/-- A range draw returns. Assumes: an odd increment. -/
theorem genRangeU32_isSome {stream : Pcg32} (hodd : stream.IsOdd) (bound : UInt32) :
    (stream.genRangeU32 bound).isSome = true := by
  cases hdraw : stream.genRangeU32 bound with
  | some drawn => rfl
  | none =>
    obtain ⟨n, hn, hfull⟩ := exists_stepState hodd stream.state fullState
    have hrejected := rejected_of_redraw hdraw n hn
    rw [hfull, output_fullState] at hrejected
    have hlt := UInt32.lt_iff_toNat_lt.mp hrejected
    have htop : (0xffffffff : UInt32).toNat = 4294967295 := rfl
    have hsize := (threshold bound).toNat_lt
    omega

/-- A range draw keeps the increment. -/
theorem redraw_inc {bound : UInt32} {fuel : ℕ} {stream : Pcg32} {drawn : UInt32 × Pcg32}
    (hdraw : redraw bound fuel stream = some drawn) : drawn.2.inc = stream.inc := by
  induction fuel generalizing stream with
  | zero => cases hdraw
  | succ fuel ih =>
    -- With the stream taken apart, no step compares the next state with the old one.
    obtain ⟨state, inc⟩ := stream
    rw [redraw_succ] at hdraw
    split_ifs at hdraw with haccepted
    · cases hdraw
      rfl
    · exact @ih ⟨stepState inc state, inc⟩ hdraw

/-- A range draw is below the bound. -/
theorem redraw_lt {bound : UInt32} (hbound : 0 < bound) {fuel : ℕ} {stream : Pcg32}
    {drawn : UInt32 × Pcg32} (hdraw : redraw bound fuel stream = some drawn) : drawn.1 < bound := by
  induction fuel generalizing stream with
  | zero => cases hdraw
  | succ fuel ih =>
    rw [redraw_succ] at hdraw
    split_ifs at hdraw with haccepted
    · cases hdraw
      exact UInt32.mod_lt _ hbound
    · exact ih hdraw

end Pcg32

namespace DeterministicRng

def IsOdd (rng : DeterministicRng) : Prop :=
  ∀ name stream, rng.streams.get? name = some stream → stream.IsOdd

theorem deriveStream_isOdd (seed : UInt64) (name : String) : (deriveStream seed name).IsOdd := by
  have hor : ∀ value : UInt64, (value ||| 1) % 2 = 1 := by
    intro value
    apply UInt64.toNat_inj.mp
    rw [UInt64.toNat_mod, UInt64.toNat_or]
    show (value.toNat ||| 1) % 2 = 1
    simp
  exact hor _

theorem IsOdd.stream {rng : DeterministicRng} (hodd : rng.IsOdd) (name : String) :
    (rng.stream name).IsOdd := by
  unfold DeterministicRng.stream
  cases hget : rng.streams.get? name with
  | some stream => exact hodd name stream hget
  | none => exact deriveStream_isOdd rng.seed name

theorem isOdd_fromSeed (seed : UInt64) : (fromSeed seed).IsOdd := fun _ _ ↦ nofun

theorem IsOdd.setStream {rng : DeterministicRng} (hodd : rng.IsOdd) {name : String} {stream : Pcg32}
    (hstream : stream.IsOdd) : (rng.setStream name stream).IsOdd := by
  intro other found hget
  by_cases hsame : other = name
  · rw [hsame, DeterministicRng.setStream, BTreeMap.get?_insert_self, Option.some.injEq] at hget
    rw [← hget]
    exact hstream
  · rw [DeterministicRng.setStream, BTreeMap.get?_insert_of_ne _ hsame] at hget
    exact hodd other found hget

end DeterministicRng

end Crpg.Core
