import Mathlib.Data.Nat.Digits.Lemmas

/-!
# Decimal digits in texts

The bytes of decimal numbers. `value` is the number a run of digits denotes, leading zeros included;
`digits` is the shortest run for a number and `padded` the one of a given length. `accumulate` is
the loop that parsers write, with a check against a limit at each digit: it fails exactly where the
value of the run exceeds the limit (`accumulate_eq`).

`asciiText` is a text of bytes below 128, and `utf8_asciiText` gives its bytes back.
-/

set_option autoImplicit false

namespace Crpg.Lib.Decimal

def isDigit (byte : UInt8) : Bool := 48 ≤ byte && byte ≤ 57

def digitOf (byte : UInt8) : ℕ := byte.toNat - 48

def digitByte (digit : ℕ) : UInt8 := UInt8.ofNat (48 + digit)

/-- The number that a run of digits denotes after a number read before it. -/
def valueFrom (start : ℕ) (run : List UInt8) : ℕ :=
  run.foldl (fun value byte ↦ value * 10 + digitOf byte) start

/-- The number that a run of digits denotes. -/
def value (run : List UInt8) : ℕ := valueFrom 0 run

/-- The shortest run for a number. -/
def digits (number : ℕ) : List UInt8 :=
  if number = 0 then [48] else ((Nat.digits 10 number).map digitByte).reverse

/-- The run for a number, filled with zeros to a length. -/
def padded (length number : ℕ) : List UInt8 :=
  List.replicate (length - (digits number).length) 48 ++ digits number

def AllDigits (run : List UInt8) : Prop := ∀ byte ∈ run, isDigit byte = true

instance (run : List UInt8) : Decidable (AllDigits run) :=
  inferInstanceAs (Decidable (∀ byte ∈ run, _))

/-! ### Digits -/

theorem isDigit_iff {byte : UInt8} : isDigit byte = true ↔ 48 ≤ byte.toNat ∧ byte.toNat ≤ 57 := by
  unfold isDigit
  rw [Bool.and_eq_true, decide_eq_true_iff, decide_eq_true_iff, UInt8.le_iff_toNat_le,
    UInt8.le_iff_toNat_le]
  rfl

variable {digit limit : ℕ}

theorem toNat_digitByte (hdigit : digit < 10) : (digitByte digit).toNat = 48 + digit :=
  UInt8.toNat_ofNat_of_lt' (by show 48 + digit < 256; omega)

theorem isDigit_digitByte (hdigit : digit < 10) : isDigit (digitByte digit) = true := by
  rw [isDigit_iff, toNat_digitByte hdigit]
  omega

@[simp]
theorem digitOf_digitByte (hdigit : digit < 10) : digitOf (digitByte digit) = digit := by
  rw [digitOf, toNat_digitByte hdigit]
  omega

/-! ### Values -/

theorem valueFrom_eq (start : ℕ) (run : List UInt8) :
    valueFrom start run = start * 10 ^ run.length + value run := by
  unfold value
  induction run generalizing start with
  | nil => simp [valueFrom]
  | cons byte rest ih =>
    have hstep (start : ℕ) : valueFrom start (byte :: rest) =
        valueFrom (start * 10 + digitOf byte) rest := rfl
    rw [hstep, hstep, ih, ih (0 * 10 + digitOf byte), List.length_cons, pow_succ]
    ring

theorem value_append (first second : List UInt8) :
    value (first ++ second) = value first * 10 ^ second.length + value second := by
  rw [← valueFrom_eq]
  exact List.foldl_append

theorem value_cons (byte : UInt8) (rest : List UInt8) :
    value (byte :: rest) = digitOf byte * 10 ^ rest.length + value rest := by
  rw [← valueFrom_eq]
  show valueFrom (0 * 10 + digitOf byte) rest = _
  rw [zero_mul, zero_add]

theorem value_lt {run : List UInt8} (hrun : AllDigits run) : value run < 10 ^ run.length := by
  induction run with
  | nil => exact Nat.one_pos
  | cons byte rest ih =>
    obtain ⟨hbyte, hrest⟩ := List.forall_mem_cons.mp hrun
    have hdigit : digitOf byte ≤ 9 := by
      have hrange := isDigit_iff.mp hbyte
      unfold digitOf
      omega
    have hlow := ih hrest
    rw [value_cons, List.length_cons, pow_succ]
    have hscaled := Nat.mul_le_mul_right (10 ^ rest.length) hdigit
    omega

theorem value_replicate_zero (count : ℕ) (run : List UInt8) :
    value (List.replicate count 48 ++ run) = value run := by
  induction count with
  | zero => rfl
  | succ count ih =>
    rw [List.replicate_succ, List.cons_append, value_cons, ih]
    show 0 * _ + _ = _
    rw [zero_mul, zero_add]

/-! ### Shortest runs -/

theorem allDigits_digits (number : ℕ) : AllDigits (digits number) := by
  unfold digits
  split_ifs with hzero
  · intro byte hbyte
    rw [List.mem_singleton.mp hbyte]
    rfl
  · intro byte hbyte
    rw [List.mem_reverse, List.mem_map] at hbyte
    obtain ⟨digit, hdigit, rfl⟩ := hbyte
    exact isDigit_digitByte (Nat.digits_lt_base (by decide) hdigit)

/-- The digits of a number, the last one first, denote it. -/
theorem value_map_digitByte {run : List ℕ} (hrun : ∀ digit ∈ run, digit < 10) :
    value (run.map digitByte).reverse = Nat.ofDigits 10 run := by
  induction run with
  | nil => rfl
  | cons digit rest ih =>
    obtain ⟨hdigit, hrest⟩ := List.forall_mem_cons.mp hrun
    have hlast : value [digitByte digit] = digit := by
      rw [value_cons, digitOf_digitByte hdigit]
      simp [value, valueFrom]
    rw [List.map_cons, List.reverse_cons, value_append, ih hrest, hlast, Nat.ofDigits_cons,
      List.length_singleton, pow_one]
    ring

/-- A run denotes the number it was made for. -/
theorem value_digits (number : ℕ) : value (digits number) = number := by
  unfold digits
  split_ifs with hzero
  · rw [hzero]
    rfl
  · rw [value_map_digitByte fun digit hdigit ↦ Nat.digits_lt_base (by decide) hdigit,
      Nat.ofDigits_digits]

/-- A run without leading zeros is the shortest for its number. -/
theorem digits_value {run : List UInt8} (hrun : AllDigits run) (hpresent : run ≠ [])
    (hleading : ¬(1 < run.length ∧ run.head? = some 48)) : digits (value run) = run := by
  have hback : ((run.map digitOf).reverse.map digitByte).reverse = run := by
    rw [List.map_reverse, List.reverse_reverse, List.map_map]
    refine (List.map_congr_left fun byte hbyte ↦ ?_).trans (List.map_id run)
    have hrange := isDigit_iff.mp (hrun byte hbyte)
    apply UInt8.toNat_inj.mp
    show (digitByte (digitOf byte)).toNat = byte.toNat
    rw [toNat_digitByte (by unfold digitOf; omega), digitOf]
    omega
  have hsmall : ∀ digit ∈ (run.map digitOf).reverse, digit < 10 := by
    intro digit hdigit
    rw [List.mem_reverse, List.mem_map] at hdigit
    obtain ⟨byte, hbyte, rfl⟩ := hdigit
    have hrange := isDigit_iff.mp (hrun byte hbyte)
    unfold digitOf
    omega
  have hvalue := value_map_digitByte hsmall
  rw [hback] at hvalue
  obtain ⟨first, rest, rfl⟩ := List.exists_cons_of_ne_nil hpresent
  have hfirst := isDigit_iff.mp (hrun first List.mem_cons_self)
  unfold digits
  by_cases hzero : first = 48
  · have hrest : rest = [] := by
      by_contra hne
      refine hleading ⟨?_, by rw [hzero]; rfl⟩
      rw [List.length_cons]
      have := List.length_pos_iff.mpr hne
      omega
    rw [hzero, hrest]
    rfl
  · have hdigit : digitOf first ≠ 0 := by
      intro heq
      apply hzero
      apply UInt8.toNat_inj.mp
      show first.toNat = 48
      unfold digitOf at heq
      omega
    rw [if_neg, hvalue, Nat.digits_ofDigits 10 (by decide) _ hsmall, hback]
    · intro _
      simpa using hdigit
    · rw [value_cons]
      have hscale : 0 < digitOf first * 10 ^ rest.length :=
        Nat.mul_pos (Nat.pos_of_ne_zero hdigit) (Nat.pow_pos (by decide))
      omega

theorem length_digits_pos (number : ℕ) : 0 < (digits number).length := by
  unfold digits
  split_ifs with hzero
  · exact Nat.one_pos
  · rw [List.length_reverse, List.length_map, List.length_pos_iff]
    exact Nat.digits_ne_nil_iff_ne_zero.mpr hzero

/-- A number below a power of ten has at most that many digits. -/
theorem length_digits_le {number length : ℕ} (hpos : 0 < length) (hlt : number < 10 ^ length) :
    (digits number).length ≤ length := by
  unfold digits
  split_ifs with hzero
  · exact hpos
  · rw [List.length_reverse, List.length_map]
    exact (Nat.digits_length_le_iff (by decide) number).mpr hlt

theorem length_digits_value_le {run : List UInt8} (hrun : AllDigits run) (hne : run ≠ []) :
    (digits (value run)).length ≤ run.length :=
  length_digits_le (List.length_pos_iff.mpr hne) (value_lt hrun)

theorem allDigits_padded (length number : ℕ) : AllDigits (padded length number) := by
  unfold padded AllDigits
  rw [List.forall_mem_append]
  refine ⟨fun byte hbyte ↦ ?_, allDigits_digits number⟩
  rw [List.eq_of_mem_replicate hbyte]
  rfl

theorem value_padded (length number : ℕ) : value (padded length number) = number := by
  rw [padded, value_replicate_zero, value_digits]

theorem length_padded {length number : ℕ} (hpos : 0 < length) (hlt : number < 10 ^ length) :
    (padded length number).length = length := by
  have hlength := length_digits_le hpos hlt
  rw [padded, List.length_append, List.length_replicate]
  omega

/-! ### Runs at the front of a text -/

/-- The text does not go on with a digit. -/
def StopsDigits (after : List UInt8) : Prop := ∀ byte ∈ after.head?, isDigit byte = false

structure DigitRun where
  bytes : List UInt8
  ne : bytes ≠ []
  allDigits : AllDigits bytes

def DigitRun.number (run : DigitRun) : ℕ := value run.bytes

def DigitRun.ofNumber (number : ℕ) : DigitRun :=
  ⟨digits number, List.ne_nil_of_length_pos (length_digits_pos number), allDigits_digits number⟩

@[simp]
theorem DigitRun.number_ofNumber (number : ℕ) : (ofNumber number).number = number :=
  value_digits number

theorem allDigits_takeWhile (text : List UInt8) : AllDigits (text.takeWhile isDigit) :=
  List.all_eq_true.mp (List.all_takeWhile)

theorem stopsDigits_dropWhile (text : List UInt8) : StopsDigits (text.dropWhile isDigit) := by
  intro byte hbyte
  have hne : text.dropWhile isDigit ≠ [] := by
    intro hnil
    rw [hnil] at hbyte
    exact nomatch hbyte
  have hhead := List.head_dropWhile_not isDigit hne
  rw [List.head?_eq_some_head hne, Option.mem_some_iff] at hbyte
  rw [← hbyte]
  exact hhead

/-- A run is read up to its end. -/
theorem takeWhile_run {run after : List UInt8} (hrun : AllDigits run) (hafter : StopsDigits after) :
    (run ++ after).takeWhile isDigit = run := by
  induction run with
  | nil =>
    cases after with
    | nil => rfl
    | cons byte rest =>
      rw [List.nil_append, List.takeWhile_cons_of_neg]
      rw [hafter byte rfl]
      exact Bool.false_ne_true
  | cons byte rest ih =>
    obtain ⟨hbyte, hrest⟩ := List.forall_mem_cons.mp hrun
    rw [List.cons_append, List.takeWhile_cons_of_pos hbyte, ih hrest]

/-! ### The parsing loop -/

/-- Reads a run of digits, checking each step against a limit. -/
def accumulate (limit start : ℕ) : List UInt8 → Option ℕ
  | [] => some start
  | byte :: rest =>
    if start * 10 + digitOf byte ≤ limit then accumulate limit (start * 10 + digitOf byte) rest
    else none

theorem accumulate_eq {start : ℕ} (hstart : start ≤ limit) (run : List UInt8) :
    accumulate limit start run =
      if valueFrom start run ≤ limit then some (valueFrom start run) else none := by
  induction run generalizing start with
  | nil => exact (if_pos hstart).symm
  | cons byte rest ih =>
    have hstep : valueFrom start (byte :: rest) = valueFrom (start * 10 + digitOf byte) rest := rfl
    rw [accumulate, hstep]
    by_cases hchecked : start * 10 + digitOf byte ≤ limit
    · rw [if_pos hchecked, ih hchecked]
    · have hgrows : start * 10 + digitOf byte ≤ valueFrom (start * 10 + digitOf byte) rest := by
        rw [valueFrom_eq]
        exact (Nat.le_mul_of_pos_right _ (by positivity)).trans (Nat.le_add_right _ _)
      rw [if_neg hchecked, if_neg fun hvalue ↦ hchecked (hgrows.trans hvalue)]

theorem accumulate_of_le {run : List UInt8} (hvalue : value run ≤ limit) :
    accumulate limit 0 run = some (value run) :=
  (accumulate_eq (Nat.zero_le limit) run).trans (if_pos hvalue)

theorem accumulate_of_lt {run : List UInt8} (hvalue : limit < value run) :
    accumulate limit 0 run = none :=
  (accumulate_eq (Nat.zero_le limit) run).trans (if_neg (not_le.mpr hvalue))

/-! ### Texts of ASCII bytes -/

def asciiText (bytes : List UInt8) : String :=
  String.ofList (bytes.map fun byte ↦ Char.ofNat byte.toNat)

theorem utf8_asciiText {bytes : List UInt8} (hbytes : ∀ byte ∈ bytes, byte.toNat < 128) :
    (asciiText bytes).toUTF8.data.toList = bytes := by
  have hencode : (asciiText bytes).toUTF8.data.toList =
      (bytes.map fun byte ↦ Char.ofNat byte.toNat).flatMap String.utf8EncodeChar := by
    unfold asciiText
    rw [String.toUTF8_eq_toByteArray, String.toByteArray_ofList, List.utf8Encode,
      List.data_toByteArray]
  rw [hencode, List.flatMap_map]
  clear hencode
  induction bytes with
  | nil => rfl
  | cons byte rest ih =>
    obtain ⟨hbyte, hrest⟩ := List.forall_mem_cons.mp hbytes
    have hchar : String.utf8EncodeChar (Char.ofNat byte.toNat) = [byte] := by
      have hvalid : byte.toNat.isValidChar := Or.inl (by omega)
      have hval : (Char.ofNat byte.toNat).val.toNat = byte.toNat := by
        unfold Char.ofNat
        rw [dif_pos hvalid]
        rfl
      unfold String.utf8EncodeChar
      simp only [hval]
      rw [if_pos (by omega), UInt8.ofNat_toNat]
    rw [List.flatMap_cons, hchar]
    exact congrArg (byte :: ·) (ih hrest)

end Crpg.Lib.Decimal
