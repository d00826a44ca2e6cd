import Crpg.Lib.Result
import Mathlib.Data.Nat.Basic
import Mathlib.Tactic.Common
import Mathlib.Tactic.Ring

/-!
# Fixed-width fields of byte strings

A binary header is a run of fields at fixed offsets. `leBytes` and `leValue` are the little-endian
form of a number, `beBytes` and `beValue` the big-endian one, and each pair inverts the other on
numbers of the field's width. `slice` is the indexing of a byte string by a range, which panics
when the range leaves the string; `slice_of_append` reads a field off a concatenation, and
`append_of_slice` puts the fields back together.
-/

set_option autoImplicit false

namespace Crpg.Lib

variable {ε : Type*}

/-- `to_le_bytes` of a number that is `width` bytes wide. -/
def leBytes : ℕ → ℕ → List UInt8
  | 0, _ => []
  | width + 1, value => UInt8.ofNat value :: leBytes width (value / 256)

/-- `from_le_bytes`. -/
def leValue : List UInt8 → ℕ
  | [] => 0
  | byte :: rest => byte.toNat + 256 * leValue rest

/-- `to_be_bytes` of a number that is `width` bytes wide. -/
def beBytes (width value : ℕ) : List UInt8 := (leBytes width value).reverse

/-- `from_be_bytes`. -/
def beValue (bytes : List UInt8) : ℕ := leValue bytes.reverse

/-- Indexing by the range `first..last`. -/
def slice (bytes : List UInt8) (first last : ℕ) : Result ε (List UInt8) :=
  if first ≤ last ∧ last ≤ bytes.length then .ok ((bytes.drop first).take (last - first))
  else .panic

def byteAt (bytes : List UInt8) (index : ℕ) : Result ε UInt8 := .expect bytes[index]?

/-! ### Numbers -/

@[simp]
theorem length_leBytes (width value : ℕ) : (leBytes width value).length = width := by
  induction width generalizing value with
  | zero => rfl
  | succ width ih => simp only [leBytes, List.length_cons, ih]

@[simp]
theorem length_beBytes (width value : ℕ) : (beBytes width value).length = width := by
  simp only [beBytes, List.length_reverse, length_leBytes]

variable {width first last index : ℕ} {bytes field : List UInt8}

theorem leValue_leBytes {value : ℕ} (hvalue : value < 256 ^ width) :
    leValue (leBytes width value) = value := by
  induction width generalizing value with
  | zero =>
    have hzero : value = 0 := by simpa using hvalue
    rw [hzero]
    rfl
  | succ width ih =>
    have hquotient : value / 256 < 256 ^ width := by
      apply Nat.div_lt_of_lt_mul
      rw [pow_succ, mul_comm] at hvalue
      exact hvalue
    simp only [leBytes, leValue, ih hquotient, UInt8.toNat_ofNat']
    omega

theorem leBytes_leValue (bytes : List UInt8) : leBytes bytes.length (leValue bytes) = bytes := by
  induction bytes with
  | nil => rfl
  | cons byte rest ih =>
    have hbyte := byte.toNat_lt
    have hlow : UInt8.ofNat (byte.toNat + 256 * leValue rest) = byte := by
      apply UInt8.toNat_inj.mp
      rw [UInt8.toNat_ofNat']
      omega
    have hhigh : (byte.toNat + 256 * leValue rest) / 256 = leValue rest := by omega
    simp only [List.length_cons, leBytes, leValue, hlow, hhigh, ih]

theorem leValue_lt (bytes : List UInt8) : leValue bytes < 256 ^ bytes.length := by
  induction bytes with
  | nil => exact Nat.one_pos
  | cons byte rest ih =>
    have hbyte := byte.toNat_lt
    simp only [leValue, List.length_cons, pow_succ]
    omega

theorem beValue_beBytes {value : ℕ} (hvalue : value < 256 ^ width) :
    beValue (beBytes width value) = value := by
  rw [beValue, beBytes, List.reverse_reverse, leValue_leBytes hvalue]

theorem beBytes_beValue (bytes : List UInt8) : beBytes bytes.length (beValue bytes) = bytes := by
  have hround := leBytes_leValue bytes.reverse
  rw [List.length_reverse] at hround
  rw [beBytes, beValue, hround, List.reverse_reverse]

theorem beValue_lt (bytes : List UInt8) : beValue bytes < 256 ^ bytes.length := by
  have hlt := leValue_lt bytes.reverse
  rw [List.length_reverse] at hlt
  exact hlt

/-! ### Ranges -/

/-- A range inside the string is read. -/
theorem slice_eq_ok (hfirst : first ≤ last) (hlast : last ≤ bytes.length) :
    (slice bytes first last : Result ε (List UInt8)) =
      .ok ((bytes.drop first).take (last - first)) :=
  if_pos ⟨hfirst, hlast⟩

/-- The middle of three parts is the range between the ends of the first two. -/
theorem slice_of_append (front middle back : List UInt8)
    (hbytes : bytes = front ++ (middle ++ back)) (hfirst : front.length = first)
    (hlast : first + middle.length = last) :
    (slice bytes first last : Result ε (List UInt8)) = .ok middle := by
  subst hbytes hfirst hlast
  rw [slice_eq_ok (Nat.le_add_right _ _) (by simp only [List.length_append]; omega),
    List.drop_left, Nat.add_sub_cancel_left, List.take_left]

/-- A range that is read has its length, and with what follows it is what starts where it does. -/
theorem append_of_slice (hslice : (slice bytes first last : Result ε (List UInt8)) = .ok field) :
    bytes.drop first = field ++ bytes.drop last ∧ field.length = last - first := by
  unfold slice at hslice
  split_ifs at hslice with hrange
  cases hslice
  refine ⟨?_, ?_⟩
  · have hdrop : bytes.drop last = (bytes.drop first).drop (last - first) := by
      rw [List.drop_drop, Nat.add_sub_cancel' hrange.1]
    rw [hdrop, List.take_append_drop]
  · rw [List.length_take, List.length_drop]
    omega

theorem byteAt_of_append (front : List UInt8) (byte : UInt8) (back : List UInt8)
    (hbytes : bytes = front ++ byte :: back) (hindex : front.length = index) :
    (byteAt bytes index : Result ε UInt8) = .ok byte := by
  subst hbytes hindex
  simp only [byteAt, List.getElem?_append_right le_rfl, Nat.sub_self, List.getElem?_cons_zero,
    Result.expect_some]

/-- A byte that is read, with what follows it, is what starts where it does. -/
theorem cons_of_byteAt {byte : UInt8} (hbyte : (byteAt bytes index : Result ε UInt8) = .ok byte) :
    bytes.drop index = byte :: bytes.drop (index + 1) := by
  rw [byteAt, Result.expect_eq_ok_iff, List.getElem?_eq_some_iff] at hbyte
  obtain ⟨hindex, rfl⟩ := hbyte
  exact List.drop_eq_getElem_cons hindex

theorem returns_byteAt (hindex : index < bytes.length) :
    (byteAt bytes index : Result ε UInt8).Returns := by
  rw [byteAt, List.getElem?_eq_getElem hindex, Result.expect_some]
  exact Result.returns_ok _

theorem eq_beBytes_of_length (hlength : field.length = width) :
    field = beBytes width (beValue field) := by
  rw [← hlength, beBytes_beValue]

theorem eq_leBytes_of_length (hlength : field.length = width) :
    field = leBytes width (leValue field) := by
  rw [← hlength, leBytes_leValue]

theorem returns_slice (hfirst : first ≤ last) (hlast : last ≤ bytes.length) :
    (slice bytes first last : Result ε (List UInt8)).Returns := by
  rw [slice_eq_ok hfirst hlast]
  exact Result.returns_ok _

end Crpg.Lib
