import Crpg.Core.Arena

/-!
# The text of an identity

`crpg-core/src/ulid.rs`. A 128-bit identity is written as 26 digits of the Crockford alphabet, the
most significant first. Parsing reads the digits back in either case and with the look-alikes of the
alphabet, and `parse_ulidText` says it inverts the text.
-/

set_option autoImplicit false

namespace Crpg.Core

/-- `ENCODE`: the digits of the alphabet. -/
def ulidAlphabet : List Char := "0123456789ABCDEFGHJKMNPQRSTVWXYZ".toList

/-- The last `count` digits of a value, the most significant first. -/
def ulidDigits : ℕ → ℕ → List Char
  | 0, _ => []
  | count + 1, value => ulidDigits count (value / 32) ++ [ulidAlphabet.getD (value % 32) '0']

/-- `Display`: the 26 digits of an identity. -/
def ulidText (id : Ulid) : String := String.ofList (ulidDigits 26 id.val)

/-- The parse failures of an identity. -/
inductive UlidError
  | invalidUlidLength (actual : ℕ)
  | invalidUlidCharacter (character : Char) (index : ℕ)
  | ulidOverflow
deriving DecidableEq

/-- `decode`: the value of one digit, in either case. -/
def ulidDigit (character : Char) : Option ℕ :=
  let upper := character.toUpper
  if upper = '0' ∨ upper = 'O' then some 0
  else if upper = '1' ∨ upper = 'I' ∨ upper = 'L' then some 1
  else if '2' ≤ upper ∧ upper ≤ '9' then some (upper.toNat - 48)
  else if 'A' ≤ upper ∧ upper ≤ 'H' then some (upper.toNat - 65 + 10)
  else if 'J' ≤ upper ∧ upper ≤ 'K' then some (upper.toNat - 74 + 18)
  else if 'M' ≤ upper ∧ upper ≤ 'N' then some (upper.toNat - 77 + 20)
  else if 'P' ≤ upper ∧ upper ≤ 'T' then some (upper.toNat - 80 + 22)
  else if 'V' ≤ upper ∧ upper ≤ 'Z' then some (upper.toNat - 86 + 27)
  else none

def ulidStep (state : Except UlidError (ℕ × ℕ)) (character : Char) : Except UlidError (ℕ × ℕ) :=
  match state with
  | .error error => .error error
  | .ok (index, value) =>
    match ulidDigit character with
    | none => .error (.invalidUlidCharacter character index)
    | some digit =>
      if index = 0 ∧ digit > 7 then .error .ulidOverflow
      else if value * 32 + digit < 2 ^ 128 then .ok (index + 1, value * 32 + digit)
      else .error .ulidOverflow

/-- `FromStr`: 26 digits whose value fits 128 bits. -/
def parseUlid (input : String) : Except UlidError Ulid :=
  if input.toList.length ≠ 26 then .error (.invalidUlidLength input.toList.length)
  else match input.toList.foldl ulidStep (.ok (0, 0)) with
    | .error error => .error error
    | .ok (_, value) => .ok (Fin.ofNat _ value)

theorem length_ulidDigits (count value : ℕ) : (ulidDigits count value).length = count := by
  induction count generalizing value with
  | zero => rfl
  | succ count ih => rw [ulidDigits, List.length_append, ih, List.length_singleton]

/-- Every digit of a text is one byte long. -/
theorem utf8Size_of_mem_ulidDigits {count value : ℕ} {character : Char}
    (hmem : character ∈ ulidDigits count value) : character.utf8Size = 1 := by
  induction count generalizing value with
  | zero => exact absurd hmem List.not_mem_nil
  | succ count ih =>
    rw [ulidDigits, List.mem_append, List.mem_singleton] at hmem
    cases hmem with
    | inl hfront => exact ih hfront
    | inr hlast =>
      have hdigit : ∀ digit : Fin 32, (ulidAlphabet.getD digit '0').utf8Size = 1 := by decide
      rw [hlast]
      exact hdigit ⟨value % 32, Nat.mod_lt _ (by decide)⟩

/-- Only a text of 26 characters is an identity. -/
theorem length_of_parseUlid {input : String} {id : Ulid} (hparse : parseUlid input = .ok id) :
    input.toList.length = 26 := by
  unfold parseUlid at hparse
  split_ifs at hparse with hlength
  exact not_not.mp hlength

theorem ulidDigit_alphabet (digit : Fin 32) :
    ulidDigit (ulidAlphabet.getD digit '0') = some digit.val := by
  decide +revert

/-- The digits of a value read back. Assumes: the value fits the digits with three bits in the
first. -/
theorem foldl_ulidDigits {count value : ℕ} (hfits : value < 8 * 32 ^ count)
    (hbound : value < 2 ^ 128) :
    (ulidDigits (count + 1) value).foldl ulidStep (.ok (0, 0)) = .ok (count + 1, value) := by
  induction count generalizing value with
  | zero =>
    have hdigit : ulidDigit (ulidAlphabet.getD (value % 32) '0') = some (value % 32) :=
      ulidDigit_alphabet ⟨value % 32, Nat.mod_lt _ (by decide)⟩
    simp only [ulidDigits, List.nil_append, List.foldl_cons, List.foldl_nil, ulidStep, hdigit]
    rw [if_neg (by omega), if_pos (by omega), Nat.mod_eq_of_lt (by omega)]
    simp only [Nat.zero_mul, Nat.zero_add]
  | succ count ih =>
    have hdigit : ulidDigit (ulidAlphabet.getD (value % 32) '0') = some (value % 32) :=
      ulidDigit_alphabet ⟨value % 32, Nat.mod_lt _ (by decide)⟩
    have hrest := @ih (value / 32) (by rw [pow_succ] at hfits; omega) (by omega)
    have hvalue : value / 32 * 32 + value % 32 = value := by omega
    rw [ulidDigits, List.foldl_append, hrest]
    simp only [List.foldl_cons, List.foldl_nil, ulidStep, hdigit]
    rw [if_neg (by omega), hvalue, if_pos hbound]

theorem parse_ulidText (id : Ulid) : parseUlid (ulidText id) = .ok id := by
  have hfold := @foldl_ulidDigits 25 id.val (by have := id.isLt; omega) id.isLt
  unfold parseUlid ulidText
  rw [String.toList_ofList, length_ulidDigits, hfold]
  simp

end Crpg.Core
