import Crpg.Core.FixedArithmetic
import Crpg.Core.Rng
import Crpg.Lib.Decimal
import Crpg.Lib.Result

/-!
# Fixed-point numbers as text

`Display` and `FromStr` of `crpg-core/src/fixed.rs`, over 64-bit intermediates. A `DecimalText` is a
text of the accepted grammar with the number it denotes. Parsing takes exactly the decimal texts
with at most 16 fractional digits that denote a value of the type (`parse_eq_ok_iff`). Display
writes the exact value of a number, and every other decimal text for it is at least as long
(`display_spec`, `length_le_of_canonical`). No intermediate overflows in either direction.
-/

set_option autoImplicit false

namespace Crpg.Core

open Crpg.Lib Crpg.Lib.Decimal
open Result (bind_eq err_bind expect_some ok_bind)

/-- `CoreError::InvalidFixedPoint`. -/
inductive FixedError
  | invalidFixedPoint
deriving DecidableEq

namespace Fx16

open MachineInteger

/-! ### Writing -/

/-- Strips trailing zeros from a fraction of so many places; `none` is a count below zero. -/
def stripZeros : ℕ → ℕ → Option (ℕ × ℕ)
  | 0, fraction => if fraction % 10 = 0 then none else some (0, fraction)
  | places + 1, fraction =>
    if fraction % 10 = 0 then stripZeros places (fraction / 10) else some (places + 1, fraction)

/-- The integer part, and the fraction behind a point unless it is zero. -/
def magnitudeText (integer fraction : ℕ) : Option (List UInt8) :=
  if fraction = 0 then some (digits integer)
  else (stripZeros 16 fraction).map fun stripped ↦
    digits integer ++ 46 :: padded stripped.1 stripped.2

/-- `Display`: the bytes written; `none` is an overflow. -/
def display (fixed : Fx16) : Option (List UInt8) := do
  let magnitude ← MachineInteger.abs 64 fixed.raw
  let fraction ← mul 64 (magnitude.tmod 65536) 152587890625
  let text ← magnitudeText (shr magnitude 16).toNat fraction.toNat
  some (if 0 ≤ fixed.raw then text else 45 :: text)

/-- `to_string`. -/
def toText (fixed : Fx16) : Option String := (display fixed).map asciiText

/-! ### Reading -/

/-- `split_once`: what stands before and after the first occurrence of a byte. -/
def splitOnce (separator : UInt8) : List UInt8 → Option (List UInt8 × List UInt8)
  | [] => none
  | byte :: rest =>
    if byte = separator then some ([], rest)
    else (splitOnce separator rest).map fun parts ↦ (byte :: parts.1, parts.2)

/-- The whole digits and the fraction of a text without sign; the fraction is empty without a
point. -/
def splitParts (unsigned : List UInt8) : Option (List UInt8 × List UInt8) :=
  match splitOnce 46 unsigned with
  | some (whole, fraction) =>
    if fraction = [] ∨ 16 < fraction.length then none else some (whole, fraction)
  | none => some (unsigned, [])

/-- Adds the fractional digits to a raw value. -/
def addFraction (raw : ℤ) (fraction : List UInt8) : Result FixedError ℤ :=
  match accumulate 9223372036854775807 0 fraction with
  | none => .err .invalidFixedPoint
  | some decimal => do
    let fives ← Result.expect (exact 64 (5 ^ fraction.length))
    let remainder ← Result.expect (rem 64 decimal fives)
    Result.failIf (remainder ≠ 0) .invalidFixedPoint
    let quotient ← Result.expect (div 64 decimal fives)
    Result.panicIf (16 < fraction.length)
    let shifted ← Result.expect (shl 64 quotient (16 - fraction.length))
    Result.expect (add 64 raw shifted)

/-- The signed raw value of checked parts. -/
def signedRaw (negative : Bool) (whole : ℕ) (fraction : List UInt8) : Result FixedError ℤ :=
  (Result.expect (shl 64 whole 16)).bind fun raw ↦
    (if fraction = [] then Result.ok raw else addFraction raw fraction).bind fun total ↦
      if negative then Result.expect (MachineInteger.neg 64 total) else Result.ok total

def parseParts (negative : Bool) (whole fraction : List UInt8) : Result FixedError Fx16 :=
  if whole = [] ∨ ¬AllDigits whole ∨ ¬AllDigits fraction then .err .invalidFixedPoint
  else match accumulate 9223372036854775807 0 whole with
    | none => .err .invalidFixedPoint
    | some whole =>
      if 32768 < whole then .err .invalidFixedPoint
      else (signedRaw negative whole fraction).bind fun raw ↦
        Result.okOr .invalidFixedPoint (tryFrom raw)

/-- The value of the bytes of a text. -/
def parse (bytes : List UInt8) : Result FixedError Fx16 :=
  match splitParts (if bytes.head? = some 45 then bytes.tail else bytes) with
  | none => .err .invalidFixedPoint
  | some (whole, fraction) => parseParts (bytes.head? = some 45) whole fraction

/-- `FromStr`; a panic is an overflow. -/
def fromStr (text : String) : Result FixedError Fx16 := parse (utf8Bytes text)

/-! ### Decimal texts -/

def signOf (negative : Bool) : ℤ := if negative then -1 else 1

/-- A decimal text: an optional minus, digits, and optionally a point with more digits. -/
structure DecimalText where
  negative : Bool
  whole : List UInt8
  fraction : List UInt8
  whole_ne : whole ≠ []
  whole_digits : AllDigits whole
  fraction_digits : AllDigits fraction

namespace DecimalText

/-- The bytes behind the sign. -/
def unsigned (text : DecimalText) : List UInt8 :=
  text.whole ++ if text.fraction = [] then [] else 46 :: text.fraction

def bytes (text : DecimalText) : List UInt8 :=
  (if text.negative then [45] else []) ++ text.unsigned

/-- The number without its sign, in units of the last place. -/
def units (text : DecimalText) : ℕ := value (text.whole ++ text.fraction)

def toRat (text : DecimalText) : ℚ :=
  signOf text.negative * (text.units / 10 ^ text.fraction.length)

end DecimalText

/-! ### Splitting -/

theorem digit_ne {run : List UInt8} (hrun : AllDigits run) {byte : UInt8}
    (hbyte : isDigit byte = false) : byte ∉ run := by
  intro hmem
  rw [hrun byte hmem] at hbyte
  exact nomatch hbyte

theorem splitOnce_eq_some_iff {separator : UInt8} {bytes first second : List UInt8} :
    splitOnce separator bytes = some (first, second) ↔
      separator ∉ first ∧ bytes = first ++ separator :: second := by
  induction bytes generalizing first with
  | nil => simp [splitOnce]
  | cons byte rest ih =>
    unfold splitOnce
    by_cases hbyte : byte = separator
    · rw [if_pos hbyte, Option.some.injEq, Prod.mk.injEq]
      constructor
      · intro ⟨hfirst, hsecond⟩
        rw [← hfirst, ← hsecond, hbyte]
        exact ⟨List.not_mem_nil, rfl⟩
      · intro ⟨hfresh, hsplit⟩
        cases first with
        | nil => exact ⟨rfl, (List.cons.inj hsplit).2⟩
        | cons head tail =>
          exact absurd ((List.cons.inj hsplit).1.symm.trans hbyte)
            fun hhead ↦ hfresh (hhead ▸ List.mem_cons_self)
    · rw [if_neg hbyte, Option.map_eq_some_iff]
      constructor
      · intro ⟨⟨tail, later⟩, hparts, hsplit⟩
        rw [Prod.mk.injEq] at hsplit
        dsimp only at hsplit
        rw [hsplit.2] at hparts
        obtain ⟨hfresh, hrest⟩ := ih.mp hparts
        rw [← hsplit.1, hrest]
        exact ⟨fun hmem ↦ (List.mem_cons.mp hmem).elim (fun h ↦ hbyte h.symm) hfresh, rfl⟩
      · intro ⟨hfresh, hsplit⟩
        cases first with
        | nil => exact absurd (List.cons.inj hsplit).1 hbyte
        | cons head tail =>
          obtain ⟨hhead, htail⟩ := List.cons.inj hsplit
          refine ⟨(tail, second), ih.mpr ⟨fun hmem ↦ hfresh (List.mem_cons_of_mem _ hmem), htail⟩, ?_⟩
          rw [hhead]

theorem splitOnce_eq_none_iff {separator : UInt8} {bytes : List UInt8} :
    splitOnce separator bytes = none ↔ separator ∉ bytes := by
  induction bytes with
  | nil => simp [splitOnce]
  | cons byte rest ih =>
    unfold splitOnce
    by_cases hbyte : byte = separator
    · simp [hbyte]
    · rw [if_neg hbyte, Option.map_eq_none_iff, ih, List.mem_cons, not_or]
      exact ⟨fun hrest ↦ ⟨fun h ↦ hbyte h.symm, hrest⟩, fun hboth ↦ hboth.2⟩

theorem splitParts_eq_some_iff {unsigned whole fraction : List UInt8} :
    splitParts unsigned = some (whole, fraction) ↔ 46 ∉ whole ∧ fraction.length ≤ 16 ∧
        unsigned = whole ++ if fraction = [] then [] else 46 :: fraction := by
  unfold splitParts
  cases hsplit : splitOnce 46 unsigned with
  | none =>
    have hpoint := splitOnce_eq_none_iff.mp hsplit
    rw [Option.some.injEq, Prod.mk.injEq]
    constructor
    · intro ⟨hwhole, hfraction⟩
      rw [← hwhole, ← hfraction]
      exact ⟨hpoint, Nat.zero_le _, (List.append_nil _).symm⟩
    · intro ⟨_, _, hunsigned⟩
      by_cases hempty : fraction = []
      · rw [if_pos hempty, List.append_nil] at hunsigned
        exact ⟨hunsigned, hempty.symm⟩
      · rw [if_neg hempty] at hunsigned
        exact absurd (hunsigned ▸ List.mem_append_right _ List.mem_cons_self) hpoint
  | some parts =>
    obtain ⟨first, second⟩ := parts
    obtain ⟨hfresh, hbytes⟩ := splitOnce_eq_some_iff.mp hsplit
    dsimp only
    by_cases hbad : second = [] ∨ 16 < second.length
    · rw [if_pos hbad]
      constructor
      · intro hnone
        exact nomatch hnone
      · intro ⟨hwhole, hlength, hunsigned⟩
        by_cases hempty : fraction = []
        · rw [if_pos hempty, List.append_nil] at hunsigned
          rw [hbytes] at hunsigned
          exact absurd (hunsigned ▸ List.mem_append_right _ List.mem_cons_self) hwhole
        · rw [if_neg hempty] at hunsigned
          have hsame := (splitOnce_eq_some_iff.mpr ⟨hwhole, hunsigned⟩).symm.trans hsplit
          rw [Option.some.injEq, Prod.mk.injEq] at hsame
          rw [← hsame.2] at hbad
          exact absurd hlength (not_le.mpr (hbad.resolve_left hempty))
    · rw [if_neg hbad, Option.some.injEq, Prod.mk.injEq]
      rw [not_or, not_lt] at hbad
      constructor
      · intro ⟨hwhole, hfraction⟩
        rw [← hwhole, ← hfraction, if_neg hbad.1]
        exact ⟨hfresh, hbad.2, hbytes⟩
      · intro ⟨hwhole, _, hunsigned⟩
        by_cases hempty : fraction = []
        · rw [if_pos hempty, List.append_nil] at hunsigned
          rw [hbytes] at hunsigned
          exact absurd (hunsigned ▸ List.mem_append_right _ List.mem_cons_self) hwhole
        · rw [if_neg hempty] at hunsigned
          have hsame := hsplit.symm.trans (splitOnce_eq_some_iff.mpr ⟨hwhole, hunsigned⟩)
          rw [Option.some.injEq, Prod.mk.injEq] at hsame
          exact hsame

/-! ### Reading the parts -/

section Parts

variable {fraction : List UInt8} (hdigits : AllDigits fraction) (hlength : fraction.length ≤ 16)

include hdigits hlength

theorem value_fraction_lt : value fraction < 10000000000000000 :=
  (value_lt hdigits).trans_le
    ((Nat.pow_le_pow_right (by decide) hlength).trans_eq (by norm_num))

theorem units_lt : value fraction / 5 ^ fraction.length * 2 ^ (16 - fraction.length) < 65536 := by
  have hvalue := value_lt hdigits
  have hsplit : (10 : ℕ) ^ fraction.length = 5 ^ fraction.length * 2 ^ fraction.length := by
    rw [← mul_pow]
    norm_num
  have hquotient : value fraction / 5 ^ fraction.length < 2 ^ fraction.length :=
    Nat.div_lt_of_lt_mul (hsplit ▸ hvalue)
  calc value fraction / 5 ^ fraction.length * 2 ^ (16 - fraction.length)
      < 2 ^ fraction.length * 2 ^ (16 - fraction.length) :=
        Nat.mul_lt_mul_of_pos_right hquotient (by positivity)
    _ = 65536 := by rw [← pow_add, Nat.add_sub_cancel' hlength]; rfl

theorem divisor_fits : Fits 64 (5 ^ fraction.length) ∧
    Fits 64 ((value fraction : ℤ).tdiv (5 ^ fraction.length)) := by
  have hfives : (5 : ℤ) ^ fraction.length ≤ 152587890625 :=
    (pow_le_pow_right₀ (by norm_num) hlength).trans_eq (by norm_num)
  have hpositive : (0 : ℤ) < 5 ^ fraction.length := by positivity
  have hvalue := value_fraction_lt hdigits hlength
  have hshrinks := Int.natAbs_tdiv_le_natAbs (value fraction) (5 ^ fraction.length)
  have hnonneg : 0 ≤ (value fraction : ℤ).tdiv (5 ^ fraction.length) :=
    Int.tdiv_nonneg (Int.natCast_nonneg _) hpositive.le
  unfold Fits
  omega

omit hdigits hlength in
/-- A quotient of the fraction, in raw units. -/
theorem shifted_eq : (value fraction : ℤ).tdiv (5 ^ fraction.length) * 2 ^ (16 - fraction.length) =
    ((value fraction / 5 ^ fraction.length * 2 ^ (16 - fraction.length) : ℕ) : ℤ) := by
  rw [Int.tdiv_eq_ediv_of_nonneg (Int.natCast_nonneg _)]
  push_cast
  rfl

omit hdigits hlength in
theorem tmod_eq_zero_iff : (value fraction : ℤ).tmod (5 ^ fraction.length) = 0 ↔
    5 ^ fraction.length ∣ value fraction := by
  rw [← Int.dvd_iff_tmod_eq_zero]
  exact_mod_cast Int.natCast_dvd_natCast

theorem shifted_fits {raw : ℤ} (hlow : 0 ≤ raw) (hhigh : raw ≤ 2147483648) :
    Fits 64 ((value fraction : ℤ).tdiv (5 ^ fraction.length) * 2 ^ (16 - fraction.length)) ∧
      Fits 64 (raw +
        (value fraction : ℤ).tdiv (5 ^ fraction.length) * 2 ^ (16 - fraction.length)) := by
  have hunits := units_lt hdigits hlength
  rw [shifted_eq]
  unfold Fits
  omega

/-- A fraction is added exactly when it is a multiple of a raw unit, and nothing overflows. -/
theorem addFraction_eq {raw : ℤ} (hlow : 0 ≤ raw) (hhigh : raw ≤ 2147483648) :
    addFraction raw fraction = if 5 ^ fraction.length ∣ value fraction then
        .ok (raw + (value fraction / 5 ^ fraction.length * 2 ^ (16 - fraction.length) : ℕ))
      else .err .invalidFixedPoint := by
  have hread : accumulate 9223372036854775807 0 fraction = some (value fraction) :=
    accumulate_of_le ((value_fraction_lt hdigits hlength).le.trans (by norm_num))
  obtain ⟨hfives, hquotient⟩ := divisor_fits hdigits hlength
  obtain ⟨hshifted, hsum⟩ := shifted_fits hdigits hlength hlow hhigh
  have hdivisor : (5 : ℤ) ^ fraction.length ≠ 0 := by positivity
  have hremainder := @tmod_eq_zero_iff fraction
  unfold addFraction
  rw [hread]
  dsimp only
  rw [exact_of_fits hfives, expect_some, bind_eq, ok_bind, rem_of_fits hdivisor hquotient,
    expect_some, bind_eq, ok_bind, div_of_fits hdivisor hquotient, expect_some]
  by_cases hdvd : 5 ^ fraction.length ∣ value fraction
  · rw [if_pos hdvd, Result.failIf, if_neg (not_not.mpr (hremainder.mpr hdvd)), bind_eq,
      ok_bind, bind_eq, ok_bind, Result.panicIf,
      if_neg (not_lt.mpr hlength), bind_eq, ok_bind, shl, exact_of_fits hshifted,
      expect_some, bind_eq, ok_bind, add, exact_of_fits hsum,
      expect_some, shifted_eq]
  · rw [if_neg hdvd, Result.failIf, if_pos (mt hremainder.mp hdvd), bind_eq,
      err_bind]

theorem signedRaw_eq {whole : ℕ} (hwhole : whole ≤ 32768) (negative : Bool) :
    signedRaw negative whole fraction = if 5 ^ fraction.length ∣ value fraction then
        .ok (signOf negative * (whole * 65536 +
          value fraction / 5 ^ fraction.length * 2 ^ (16 - fraction.length) : ℕ))
      else .err .invalidFixedPoint := by
  have hunits := units_lt hdigits hlength
  have hraw : Fits 64 ((whole : ℤ) * 2 ^ 16) := by
    unfold Fits
    constructor <;> omega
  have htotal : (if fraction = [] then Result.ok ((whole : ℤ) * 2 ^ 16)
      else addFraction ((whole : ℤ) * 2 ^ 16) fraction) =
        if 5 ^ fraction.length ∣ value fraction then
          .ok ((whole * 65536 +
            value fraction / 5 ^ fraction.length * 2 ^ (16 - fraction.length) : ℕ) : ℤ)
        else .err .invalidFixedPoint := by
    by_cases hempty : fraction = []
    · have hzero : value fraction = 0 := by rw [hempty]; rfl
      rw [if_pos hempty, hzero, if_pos (dvd_zero _), Nat.zero_div, zero_mul, add_zero]
      push_cast
      rfl
    · rw [if_neg hempty, addFraction_eq hdigits hlength (by omega) (by omega)]
      push_cast
      rfl
  unfold signedRaw shl
  rw [exact_of_fits hraw, expect_some, ok_bind, htotal]
  by_cases hdvd : 5 ^ fraction.length ∣ value fraction
  · rw [if_pos hdvd, if_pos hdvd, ok_bind, signOf]
    generalize value fraction / 5 ^ fraction.length * 2 ^ (16 - fraction.length) = units at hunits
    by_cases hnegative : negative = true
    · have hfits : Fits 64 (-((whole * 65536 + units : ℕ) : ℤ)) := by
        unfold Fits
        constructor <;> omega
      rw [if_pos hnegative, if_pos hnegative, MachineInteger.neg, exact_of_fits hfits, expect_some,
        neg_one_mul]
    · rw [if_neg hnegative, if_neg hnegative, one_mul]
  · rw [if_neg hdvd, if_neg hdvd, err_bind]

end Parts

/-! ### What is read -/

theorem exact_iff {places : ℕ} (hplaces : places ≤ 16) (negative : Bool) (whole fraction : ℕ)
    (raw : ℤ) : (signOf negative : ℚ) * (((whole * 10 ^ places + fraction : ℕ) : ℚ) / 10 ^ places) =
        raw / 65536 ↔ 5 ^ places ∣ fraction ∧ raw = signOf negative *
        (whole * 65536 + fraction / 5 ^ places * 2 ^ (16 - places) : ℕ) := by
  have htens : (10 : ℤ) ^ places = 5 ^ places * 2 ^ places := by rw [← mul_pow]; norm_num
  have hscale : (2 : ℤ) ^ places * 2 ^ (16 - places) = 65536 := by
    rw [← pow_add, Nat.add_sub_cancel' hplaces]
    norm_num
  have hfives : (5 : ℤ) ^ places ≠ 0 := by positivity
  have htwos : (2 : ℤ) ^ places ≠ 0 := by positivity
  have hsign : signOf negative * signOf negative = 1 := by
    unfold signOf
    split_ifs <;> norm_num
  -- Clearing denominators leaves an equation of integers without the powers of two.
  have hcleared : (signOf negative : ℚ) * (((whole * 10 ^ places + fraction : ℕ) : ℚ) /
      10 ^ places) = raw / 65536 ↔
        signOf negative * ((whole * 10 ^ places + fraction : ℕ) : ℤ) * 2 ^ (16 - places) =
          raw * 5 ^ places := by
    rw [← mul_div_assoc, div_eq_div_iff (by positivity) (by norm_num)]
    constructor
    · intro heq
      have hint : signOf negative * ((whole * 10 ^ places + fraction : ℕ) : ℤ) * 65536 =
          raw * 10 ^ places := by exact_mod_cast heq
      apply mul_right_cancel₀ htwos
      calc signOf negative * ((whole * 10 ^ places + fraction : ℕ) : ℤ) * 2 ^ (16 - places) *
            2 ^ places
          = signOf negative * ((whole * 10 ^ places + fraction : ℕ) : ℤ) *
              (2 ^ places * 2 ^ (16 - places)) := by ring
        _ = raw * 10 ^ places := by rw [hscale, hint]
        _ = raw * 5 ^ places * 2 ^ places := by rw [htens]; ring
    · intro heq
      have hint : signOf negative * ((whole * 10 ^ places + fraction : ℕ) : ℤ) * 65536 =
          raw * 10 ^ places := by
        calc signOf negative * ((whole * 10 ^ places + fraction : ℕ) : ℤ) * 65536
            = signOf negative * ((whole * 10 ^ places + fraction : ℕ) : ℤ) * 2 ^ (16 - places) *
                2 ^ places := by rw [← hscale]; ring
          _ = raw * 10 ^ places := by rw [heq, htens]; ring
      exact_mod_cast hint
  rw [hcleared]
  constructor
  · intro heq
    have hdvd : 5 ^ places ∣ fraction := by
      have hproduct : ((5 ^ places : ℕ) : ℤ) ∣
          (((whole * 10 ^ places + fraction) * 2 ^ (16 - places) : ℕ) : ℤ) := by
        refine ⟨signOf negative * raw, ?_⟩
        push_cast at heq ⊢
        calc ((whole : ℤ) * 10 ^ places + fraction) * 2 ^ (16 - places)
            = signOf negative * (signOf negative * (whole * 10 ^ places + fraction) *
                2 ^ (16 - places)) := by
              rw [mul_assoc, ← mul_assoc (signOf negative) (signOf negative), hsign, one_mul]
          _ = 5 ^ places * (signOf negative * raw) := by rw [heq]; ring
      have hcoprime : Nat.Coprime (5 ^ places) (2 ^ (16 - places)) :=
        Nat.Coprime.pow _ _ (by decide)
      have hsum := hcoprime.dvd_of_dvd_mul_right (Int.natCast_dvd_natCast.mp hproduct)
      have hwhole : 5 ^ places ∣ whole * 10 ^ places :=
        Dvd.dvd.mul_left (pow_dvd_pow_of_dvd (by decide) places) whole
      exact (Nat.dvd_add_right hwhole).mp hsum
    refine ⟨hdvd, ?_⟩
    obtain ⟨quotient, hquotient⟩ := hdvd
    rw [hquotient, Nat.mul_div_cancel_left _ (by positivity)]
    apply mul_right_cancel₀ hfives
    rw [← heq, hquotient]
    push_cast
    rw [htens, ← hscale]
    ring
  · intro ⟨⟨quotient, hquotient⟩, hraw⟩
    rw [hraw, hquotient, Nat.mul_div_cancel_left _ (by positivity)]
    push_cast
    rw [htens, ← hscale]
    ring

theorem tryFrom_eq_some_iff {raw : ℤ} {fixed : Fx16} :
    tryFrom raw = some fixed ↔ InI32 fixed.raw ∧ fixed.raw = raw := by
  unfold tryFrom
  by_cases hrange : InI32 raw
  · rw [if_pos hrange, Option.some.injEq]
    constructor
    · intro heq
      rw [← heq]
      exact ⟨hrange, rfl⟩
    · intro ⟨_, hraw⟩
      rw [← hraw]
  · rw [if_neg hrange]
    constructor
    · intro hnone
      exact nomatch hnone
    · intro ⟨hin, hraw⟩
      exact absurd (hraw ▸ hin) hrange

/-- Checked parts are read exactly when they denote a value of the type. -/
theorem parseParts_eq_ok_iff {negative : Bool} {whole fraction : List UInt8}
    (hlength : fraction.length ≤ 16) {fixed : Fx16} :
    parseParts negative whole fraction = .ok fixed ↔
      whole ≠ [] ∧ AllDigits whole ∧ AllDigits fraction ∧ InI32 fixed.raw ∧
        (signOf negative : ℚ) * ((value (whole ++ fraction) : ℚ) / 10 ^ fraction.length) =
          fixed.toRat := by
  unfold parseParts
  by_cases hshape : whole = [] ∨ ¬AllDigits whole ∨ ¬AllDigits fraction
  · rw [if_pos hshape]
    constructor
    · intro herr
      exact nomatch herr
    · intro ⟨hne, hwhole, hfraction, _⟩
      exact absurd hshape (by tauto)
  · rw [if_neg hshape]
    obtain ⟨hne, hwhole, hfraction⟩ : whole ≠ [] ∧ AllDigits whole ∧ AllDigits fraction := by
      tauto
    have hexact := exact_iff hlength negative (value whole) (value fraction) fixed.raw
    rw [← value_append] at hexact
    unfold toRat
    rw [hexact]
    simp only [hne, hwhole, hfraction, ne_eq, not_false_eq_true, true_and]
    -- A whole part beyond the range leaves no raw value in range.
    have hlarge (hwide : 32768 < value whole) : ¬(InI32 fixed.raw ∧
        5 ^ fraction.length ∣ value fraction ∧ fixed.raw = signOf negative * (value whole * 65536 +
          value fraction / 5 ^ fraction.length * 2 ^ (16 - fraction.length) : ℕ)) := by
      intro ⟨hrange, _, hraw⟩
      have hbound := hrange.abs_bound
      rw [hraw, abs_mul] at hbound
      have hsign : |signOf negative| = 1 := by
        unfold signOf
        split_ifs <;> rfl
      rw [hsign, one_mul, Nat.abs_cast] at hbound
      push_cast at hbound
      have hunits : (0 : ℤ) ≤ value fraction / 5 ^ fraction.length * 2 ^ (16 - fraction.length) := by
        positivity
      omega
    by_cases hread : value whole ≤ 9223372036854775807
    · rw [accumulate_of_le hread]
      dsimp only
      by_cases hwide : 32768 < value whole
      · rw [if_pos hwide]
        exact ⟨fun herr ↦ (nomatch herr), fun hall ↦ absurd hall (hlarge hwide)⟩
      · rw [if_neg hwide, signedRaw_eq hfraction hlength (not_lt.mp hwide)]
        by_cases hdvd : 5 ^ fraction.length ∣ value fraction
        · rw [if_pos hdvd, ok_bind, Result.okOr_eq_ok_iff, tryFrom_eq_some_iff]
          exact and_congr_right fun _ ↦ (and_iff_right hdvd).symm
        · rw [if_neg hdvd, err_bind]
          exact ⟨fun herr ↦ (nomatch herr), fun hall ↦ absurd hall.2.1 hdvd⟩
    · rw [accumulate_of_lt (not_le.mp hread)]
      exact ⟨fun herr ↦ (nomatch herr), fun hall ↦ absurd hall (hlarge (by omega))⟩

/-- Reading checked parts does not overflow. -/
theorem parseParts_ne_panic (negative : Bool) (whole : List UInt8) {fraction : List UInt8}
    (hlength : fraction.length ≤ 16) : parseParts negative whole fraction ≠ .panic := by
  unfold parseParts
  by_cases hshape : whole = [] ∨ ¬AllDigits whole ∨ ¬AllDigits fraction
  · rw [if_pos hshape]
    exact nofun
  · rw [if_neg hshape]
    have hfraction : AllDigits fraction := by tauto
    by_cases hread : value whole ≤ 9223372036854775807
    · rw [accumulate_of_le hread]
      dsimp only
      by_cases hwide : 32768 < value whole
      · rw [if_pos hwide]
        exact nofun
      · rw [if_neg hwide, signedRaw_eq hfraction hlength (not_lt.mp hwide)]
        by_cases hdvd : 5 ^ fraction.length ∣ value fraction
        · rw [if_pos hdvd, ok_bind]
          unfold Result.okOr
          split <;> exact nofun
        · rw [if_neg hdvd, err_bind]
          exact nofun
    · rw [accumulate_of_lt (not_le.mp hread)]
      exact nofun

theorem parse_ne_panic (bytes : List UInt8) : parse bytes ≠ .panic := by
  unfold parse
  cases hsplit : splitParts (if bytes.head? = some 45 then bytes.tail else bytes) with
  | none => exact nofun
  | some parts =>
    obtain ⟨whole, fraction⟩ := parts
    exact parseParts_ne_panic _ whole (splitParts_eq_some_iff.mp hsplit).2.1

namespace DecimalText

variable (text : DecimalText)

/-- A text without sign starts with a digit. -/
theorem head?_unsigned : text.unsigned.head? ≠ some 45 := by
  obtain ⟨byte, rest, hwhole⟩ := List.exists_cons_of_ne_nil text.whole_ne
  have hdigit := isDigit_iff.mp (text.whole_digits byte (hwhole ▸ List.mem_cons_self))
  unfold unsigned
  rw [hwhole, List.cons_append, List.head?_cons, ne_eq, Option.some.injEq]
  intro hminus
  rw [hminus] at hdigit
  exact absurd hdigit (by decide)

theorem head?_bytes : text.bytes.head? = some 45 ↔ text.negative = true := by
  unfold bytes
  by_cases hnegative : text.negative = true
  · simp [hnegative]
  · rw [if_neg hnegative, List.nil_append]
    exact iff_of_false text.head?_unsigned hnegative

/-- What stands behind the sign. -/
theorem unsigned_bytes :
    (if text.bytes.head? = some 45 then text.bytes.tail else text.bytes) = text.unsigned := by
  by_cases hnegative : text.negative = true
  · rw [if_pos (text.head?_bytes.mpr hnegative), bytes, if_pos hnegative]
    rfl
  · rw [if_neg (mt text.head?_bytes.mp hnegative), bytes, if_neg hnegative, List.nil_append]

end DecimalText

/-- The texts that are read: decimal texts of at most 16 fractional digits that denote a value of
the type. -/
theorem parse_eq_ok_iff {bytes : List UInt8} {fixed : Fx16} :
    parse bytes = .ok fixed ↔ ∃ text : DecimalText, text.bytes = bytes ∧
      text.fraction.length ≤ 16 ∧ InI32 fixed.raw ∧ text.toRat = fixed.toRat := by
  unfold parse
  constructor
  · intro hparse
    cases hsplit : splitParts (if bytes.head? = some 45 then bytes.tail else bytes) with
    | none =>
      rw [hsplit] at hparse
      exact nomatch hparse
    | some parts =>
      obtain ⟨whole, fraction⟩ := parts
      rw [hsplit] at hparse
      obtain ⟨_, hlength, hunsigned⟩ := splitParts_eq_some_iff.mp hsplit
      obtain ⟨hne, hwhole, hfraction, hrange, hexact⟩ := (parseParts_eq_ok_iff hlength).mp hparse
      refine ⟨⟨bytes.head? = some 45, whole, fraction, hne, hwhole, hfraction⟩, ?_, hlength, hrange,
        hexact⟩
      unfold DecimalText.bytes DecimalText.unsigned
      dsimp only
      rw [← hunsigned]
      by_cases hminus : bytes.head? = some 45
      · rw [if_pos hminus, if_pos (decide_eq_true hminus)]
        exact (List.head?_eq_some_iff.mp hminus).elim fun rest hrest ↦ by rw [hrest]; rfl
      · rw [if_neg hminus, if_neg (by simpa using hminus)]
        rfl
  · intro ⟨text, hbytes, hlength, hrange, hexact⟩
    have hsplit : splitParts text.unsigned = some (text.whole, text.fraction) :=
      splitParts_eq_some_iff.mpr ⟨digit_ne text.whole_digits rfl, hlength, rfl⟩
    rw [← hbytes, text.unsigned_bytes, hsplit]
    dsimp only
    rw [parseParts_eq_ok_iff hlength]
    refine ⟨text.whole_ne, text.whole_digits, text.fraction_digits, hrange, ?_⟩
    have hsign : decide (text.bytes.head? = some 45) = text.negative := by
      rw [← Bool.coe_iff_coe, decide_eq_true_iff]
      exact text.head?_bytes
    rw [hsign]
    exact hexact

/-! ### What is written -/

/-- Stripping ends before the places do, and keeps the value of the fraction. -/
theorem stripZeros_spec {places fraction : ℕ} (hpos : 0 < fraction) (hlt : fraction < 10 ^ places) :
    ∃ left kept, stripZeros places fraction = some (left, kept) ∧ 0 < left ∧ left ≤ places ∧
      kept * 10 ^ (places - left) = fraction ∧ kept % 10 ≠ 0 ∧ kept < 10 ^ left := by
  induction places generalizing fraction with
  | zero =>
    rw [pow_zero] at hlt
    omega
  | succ places ih =>
    rw [pow_succ] at hlt
    unfold stripZeros
    by_cases hzero : fraction % 10 = 0
    · obtain ⟨left, kept, hstrip, hleft, hle, hvalue, hlast, hkept⟩ :=
        @ih (fraction / 10) (by omega) (by omega)
      refine ⟨left, kept, (if_pos hzero).trans hstrip, hleft, Nat.le_succ_of_le hle, ?_, hlast,
        hkept⟩
      rw [Nat.succ_sub hle, pow_succ, ← mul_assoc, hvalue]
      omega
    · refine ⟨places + 1, fraction, if_neg hzero, Nat.succ_pos _, le_refl _, ?_, hzero, ?_⟩
      · rw [Nat.sub_self, pow_zero, mul_one]
      · rw [pow_succ]
        exact hlt

namespace DecimalText

/-- A text without superfluous characters: no sign of zero, no leading and no trailing zeros. -/
structure Canonical (text : DecimalText) : Prop where
  sign : text.negative = true → text.units ≠ 0
  whole : text.whole = digits (value text.whole)
  fraction : text.fraction = [] ∨ value text.fraction % 10 ≠ 0

theorem units_eq (text : DecimalText) :
    text.units = value text.whole * 10 ^ text.fraction.length + value text.fraction :=
  value_append _ _

theorem units_mul_eq {first second : DecimalText} (hsame : first.toRat = second.toRat) :
    first.units * 10 ^ second.fraction.length = second.units * 10 ^ first.fraction.length := by
  have hsize (negative : Bool) : |(signOf negative : ℚ)| = 1 := by
    unfold signOf
    split_ifs <;> norm_num
  have habs := congrArg (fun exact : ℚ ↦ |exact|) hsame
  unfold toRat at habs
  rw [abs_mul, abs_mul, hsize, hsize, one_mul, one_mul, abs_of_nonneg (by positivity),
    abs_of_nonneg (by positivity), div_eq_div_iff (by positivity) (by positivity)] at habs
  exact_mod_cast habs

theorem length_le_of_canonical {text other : DecimalText} (hcanonical : text.Canonical)
    (hsame : text.toRat = other.toRat) : text.bytes.length ≤ other.bytes.length := by
  have hunits := units_mul_eq hsame
  have hvalue := value_lt text.fraction_digits
  have hothers := value_lt other.fraction_digits
  rw [units_eq, units_eq] at hunits
  generalize hplaces : text.fraction.length = places at hunits hvalue
  generalize hcount : other.fraction.length = count at hunits hothers
  -- The whole parts agree, so the fractions do.
  have hdivide : ∀ whole part length other : ℕ, part < 10 ^ length →
      (whole * 10 ^ length + part) * 10 ^ other / (10 ^ length * 10 ^ other) = whole := by
    intro whole part length other hpart
    rw [Nat.mul_div_mul_right _ _ (by positivity), mul_comm, Nat.mul_add_div (by positivity),
      Nat.div_eq_of_lt hpart, add_zero]
  have hwholes : value text.whole = value other.whole := by
    rw [← hdivide (value text.whole) (value text.fraction) places count hvalue, hunits,
      mul_comm (10 ^ places), hdivide _ _ _ _ hothers]
  have hfractions : value text.fraction * 10 ^ count = value other.fraction * 10 ^ places := by
    rw [hwholes] at hunits
    have hexpand : ∀ whole first second : ℕ,
        (whole * 10 ^ places + first) * 10 ^ count = (whole * 10 ^ count + second) * 10 ^ places →
          first * 10 ^ count = second * 10 ^ places := by
      intro whole first second heq
      have hcommute : whole * 10 ^ places * 10 ^ count = whole * 10 ^ count * 10 ^ places := by ring
      rw [add_mul, add_mul, hcommute] at heq
      exact Nat.add_left_cancel heq
    exact hexpand _ _ _ hunits
  have hwhole : text.whole.length ≤ other.whole.length := by
    rw [hcanonical.whole, hwholes]
    exact length_digits_value_le other.whole_digits other.whole_ne
  have hfraction : text.fraction = [] ∨ places ≤ count ∧ other.fraction ≠ [] := by
    by_cases hempty : text.fraction = []
    · exact Or.inl hempty
    · apply Or.inr
      have hlast := hcanonical.fraction.resolve_left hempty
      have hle : places ≤ count := by
        by_contra hshort
        obtain ⟨extra, hextra⟩ := Nat.exists_eq_add_of_lt (not_le.mp hshort)
        rw [hextra, pow_succ, pow_add] at hfractions
        have hfactor : value text.fraction = value other.fraction * 10 ^ extra * 10 := by
          apply Nat.eq_of_mul_eq_mul_right (show 0 < 10 ^ count by positivity)
          rw [hfractions]
          ring
        omega
      refine ⟨hle, fun hnone ↦ hempty ?_⟩
      rw [hnone, List.length_nil] at hcount
      exact List.length_eq_zero_iff.mp (by omega)
  have hsign : text.negative = true → other.negative = true := by
    intro hnegative
    by_contra hpositive
    have hbelow : text.toRat < 0 := by
      have hnonzero : (0 : ℚ) < text.units :=
        Nat.cast_pos.mpr (Nat.pos_of_ne_zero (hcanonical.sign hnegative))
      unfold toRat signOf
      rw [if_pos hnegative]
      push_cast
      rw [neg_one_mul, neg_lt_zero]
      positivity
    have habove : 0 ≤ other.toRat := by
      unfold toRat signOf
      rw [if_neg hpositive]
      positivity
    rw [hsame] at hbelow
    exact absurd habove (not_le.mpr hbelow)
  have hsigned : (if text.negative then [(45 : UInt8)] else []).length ≤
      (if other.negative then [(45 : UInt8)] else []).length := by
    by_cases hnegative : text.negative = true
    · rw [if_pos hnegative, if_pos (hsign hnegative)]
    · rw [if_neg hnegative]
      exact Nat.zero_le _
  have hpointed : (if text.fraction = [] then [] else 46 :: text.fraction).length ≤
      (if other.fraction = [] then [] else 46 :: other.fraction).length := by
    apply hfraction.elim
    · intro hempty
      rw [if_pos hempty]
      exact Nat.zero_le _
    · intro ⟨hle, hne⟩
      rw [if_neg hne, List.length_cons, hcount]
      split_ifs
      · exact Nat.zero_le _
      · rw [List.length_cons, hplaces]
        exact Nat.succ_le_succ hle
  unfold bytes unsigned
  simp only [List.length_append]
  omega

end DecimalText

theorem magnitudeText_spec {integer fraction : ℕ} (hfraction : fraction < 10 ^ 16)
    (negative : Bool) : ∃ text : DecimalText, magnitudeText integer fraction = some text.unsigned ∧
      text.negative = negative ∧ text.fraction.length ≤ 16 ∧
      text.units * 10 ^ (16 - text.fraction.length) = integer * 10 ^ 16 + fraction ∧
      text.whole = digits integer ∧ (text.fraction = [] ∨ value text.fraction % 10 ≠ 0) := by
  have hne : digits integer ≠ [] := List.ne_nil_of_length_pos (length_digits_pos integer)
  unfold magnitudeText
  by_cases hzero : fraction = 0
  · refine ⟨⟨negative, digits integer, [], hne, allDigits_digits integer, nofun⟩, ?_, rfl,
      Nat.zero_le _, ?_, rfl, Or.inl rfl⟩
    · rw [if_pos hzero]
      exact congrArg some (List.append_nil _).symm
    · rw [DecimalText.units_eq, hzero]
      show (value (digits integer) * 10 ^ 0 + 0) * 10 ^ 16 = _
      rw [value_digits]
      ring
  · obtain ⟨left, kept, hstrip, hleft, hle, hvalue, hlast, hkept⟩ :=
      stripZeros_spec (Nat.pos_of_ne_zero hzero) hfraction
    have hlength := length_padded hleft hkept
    have hpadded : padded left kept ≠ [] := List.ne_nil_of_length_pos (by omega)
    refine ⟨⟨negative, digits integer, padded left kept, hne, allDigits_digits integer,
      allDigits_padded left kept⟩, ?_, rfl, ?_, ?_, rfl, Or.inr ?_⟩
    · rw [if_neg hzero, hstrip, DecimalText.unsigned]
      dsimp only
      rw [if_neg hpadded]
      rfl
    · exact hlength.trans_le hle
    · rw [DecimalText.units_eq]
      dsimp only
      rw [hlength, value_digits, value_padded, add_mul, mul_assoc, ← pow_add,
        Nat.add_sub_cancel' hle, hvalue]
    · show value (padded left kept) % 10 ≠ 0
      rw [value_padded]
      exact hlast

/-- Display writes the exact value, shortest first, and nothing overflows. -/
theorem display_spec {fixed : Fx16} (hrange : InI32 fixed.raw) :
    ∃ text : DecimalText, display fixed = some text.bytes ∧ text.fraction.length ≤ 16 ∧
      text.toRat = fixed.toRat ∧ text.Canonical := by
  obtain ⟨size, hsize⟩ : ∃ size : ℕ, |fixed.raw| = size :=
    ⟨fixed.raw.natAbs, Int.abs_eq_natAbs fixed.raw⟩
  have hbound := hrange.abs_bound
  rw [hsize] at hbound
  have hmagnitude : Fits 64 (size : ℤ) := by
    unfold Fits
    constructor <;> omega
  have hremainder : (size : ℤ).tmod 65536 = ((size % 65536 : ℕ) : ℤ) := by
    rw [Int.tmod_eq_emod_of_nonneg (Int.natCast_nonneg _)]
    rfl
  have hproduct : Fits 64 (((size % 65536 : ℕ) : ℤ) * 152587890625) := by
    unfold Fits
    constructor <;> omega
  have hlow : size % 65536 * 152587890625 < 10 ^ 16 := by
    have hmod := Nat.mod_lt size (show 0 < 65536 by norm_num)
    omega
  obtain ⟨text, htext, hnegative, hlength, hunits, hwhole, hlast⟩ :=
    @magnitudeText_spec (size / 65536) (size % 65536 * 152587890625) hlow
      (decide (fixed.raw < 0))
  have hsum : size / 65536 * 10 ^ 16 + size % 65536 * 152587890625 = size * 152587890625 := by
    omega
  rw [hsum] at hunits
  refine ⟨text, ?_, hlength, ?_, ?_, ?_, hlast⟩
  · have hinteger : (shr (size : ℤ) 16).toNat = size / 65536 := by
      rw [shr_eq]
      rfl
    have hfraction : (((size % 65536 : ℕ) : ℤ) * 152587890625).toNat =
        size % 65536 * 152587890625 := by
      exact_mod_cast Int.toNat_natCast (size % 65536 * 152587890625)
    unfold display MachineInteger.abs mul
    rw [hsize, exact_of_fits hmagnitude, Option.bind_eq_bind, Option.bind_some, hremainder,
      exact_of_fits hproduct, Option.bind_some, hinteger, hfraction, htext, Option.bind_eq_bind,
      Option.bind_some]
    unfold DecimalText.bytes
    rw [hnegative]
    by_cases hsign : fixed.raw < 0
    · rw [if_neg (not_le.mpr hsign), if_pos (decide_eq_true hsign)]
      rfl
    · rw [if_pos (not_lt.mp hsign), if_neg (by simpa using hsign)]
      rfl
  · have hexact : (text.units : ℚ) / 10 ^ text.fraction.length = size / 65536 := by
      rw [div_eq_div_iff (by positivity) (by norm_num)]
      have hscale : (10 : ℚ) ^ text.fraction.length * 10 ^ (16 - text.fraction.length) =
          65536 * 152587890625 := by
        rw [← pow_add, Nat.add_sub_cancel' hlength]
        norm_num
      have hcast : (text.units : ℚ) * 10 ^ (16 - text.fraction.length) = size * 152587890625 := by
        exact_mod_cast hunits
      apply mul_right_cancel₀ (show (152587890625 : ℚ) ≠ 0 by norm_num)
      calc (text.units : ℚ) * 65536 * 152587890625
          = text.units * (10 ^ text.fraction.length * 10 ^ (16 - text.fraction.length)) := by
            rw [hscale]
            ring
        _ = text.units * 10 ^ (16 - text.fraction.length) * 10 ^ text.fraction.length := by ring
        _ = size * 10 ^ text.fraction.length * 152587890625 := by
            rw [hcast]
            ring
    have hraw : (signOf (decide (fixed.raw < 0)) : ℚ) * size = fixed.raw := by
      have hint : signOf (decide (fixed.raw < 0)) * (size : ℤ) = fixed.raw := by
        rw [← hsize]
        unfold signOf
        by_cases hsign : fixed.raw < 0
        · rw [if_pos (decide_eq_true hsign), abs_of_neg hsign]
          ring
        · rw [if_neg (by simpa using hsign), abs_of_nonneg (not_lt.mp hsign), one_mul]
      exact_mod_cast hint
    unfold DecimalText.toRat toRat
    rw [hexact, hnegative, ← mul_div_assoc, hraw]
  · intro hminus hzero
    rw [hnegative, decide_eq_true_iff] at hminus
    rw [hzero, zero_mul] at hunits
    have hpositive : 0 < |fixed.raw| := abs_pos.mpr hminus.ne
    omega
  · rw [hwhole, value_digits]

theorem DecimalText.ascii (text : DecimalText) : ∀ byte ∈ text.bytes, byte.toNat < 128 := by
  have hdigits {run : List UInt8} (hrun : AllDigits run) : ∀ byte ∈ run, byte.toNat < 128 := by
    intro byte hbyte
    have hrange := isDigit_iff.mp (hrun byte hbyte)
    omega
  unfold bytes unsigned
  rw [List.forall_mem_append, List.forall_mem_append]
  refine ⟨?_, hdigits text.whole_digits, ?_⟩
  · split_ifs
    · intro byte hbyte
      rw [List.mem_singleton.mp hbyte]
      decide
    · exact nofun
  · split_ifs
    · exact nofun
    · rw [List.forall_mem_cons]
      exact ⟨by decide, hdigits text.fraction_digits⟩

/-- Fixed-point text. Assumes: a raw value of `i32`. Its text is written without an overflow, is
read back as the value, denotes it exactly, and no shorter decimal text does. A text is read exactly
when it is an optional minus, digits, and optionally a point with 1 to 16 digits, that denotes a
value of the type, and then as that value; reading never overflows. -/
theorem fixed_text {fixed : Fx16} (hrange : InI32 fixed.raw) :
    (∃ written : DecimalText, toText fixed = some (asciiText written.bytes) ∧
      fromStr (asciiText written.bytes) = .ok fixed ∧ written.toRat = fixed.toRat ∧
      ∀ other : DecimalText, other.toRat = fixed.toRat →
        written.bytes.length ≤ other.bytes.length) ∧ ∀ input : String, fromStr input ≠ .panic ∧
      ∀ found, fromStr input = .ok found ↔
        ∃ text : DecimalText, text.bytes = utf8Bytes input ∧ text.fraction.length ≤ 16 ∧
          InI32 found.raw ∧ text.toRat = found.toRat := by
  constructor
  · obtain ⟨text, htext, hlength, hexact, hcanonical⟩ := display_spec hrange
    refine ⟨text, ?_, ?_, hexact, fun other hother ↦
      DecimalText.length_le_of_canonical hcanonical (hexact.trans hother.symm)⟩
    · rw [toText, htext]
      rfl
    · unfold fromStr utf8Bytes
      rw [utf8_asciiText text.ascii, parse_eq_ok_iff]
      exact ⟨text, rfl, hlength, hrange, hexact⟩
  · intro input
    exact ⟨parse_ne_panic _, fun found ↦ parse_eq_ok_iff⟩

/-- The text of the least value is read back. -/
theorem least_value_read_back : ∃ text : String, toText ⟨i32Min⟩ = some text ∧
    fromStr text = .ok ⟨i32Min⟩ := by
  obtain ⟨⟨written, hwritten, hread, -⟩, -⟩ := @fixed_text ⟨i32Min⟩ (by decide)
  exact ⟨_, hwritten, hread⟩

end Fx16

end Crpg.Core
