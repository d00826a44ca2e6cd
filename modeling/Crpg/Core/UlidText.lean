import Mathlib.Data.Nat.Digits.Defs
import Mathlib.Data.List.Forall2
import Mathlib.Data.String.Basic
import Crpg.Core.Ulid

/-!
# What the text of an identity denotes

A string denotes an identity when it has 26 characters, each a form of a digit of the alphabet, and
the number they write in base 32 is below `2 ^ 128`. The parser accepts these strings and no others.
26 digits hold 130 bits: the check of the first digit decides at the boundary, and the accumulation
does not overflow after it.
-/

set_option autoImplicit false

namespace Crpg.Core

/-! ### Digits -/

/-- A character in one of the accepted forms of a digit: the letter in either case, or an alias. -/
def UlidForm (character : Char) (digit : ℕ) : Prop :=
  digit < 32 ∧ (ulidAlphabet[digit]? = some character.toUpper ∨
    (digit = 0 ∧ character.toUpper = 'O') ∨
    (digit = 1 ∧ (character.toUpper = 'I' ∨ character.toUpper = 'L')))

instance (character : Char) (digit : ℕ) : Decidable (UlidForm character digit) :=
  inferInstanceAs (Decidable (_ ∧ _))

structure UlidDenotes (text : List Char) (value : ℕ) : Prop where
  length : text.length = 26
  digits : ∃ digits, List.Forall₂ UlidForm text digits ∧ value = Nat.ofDigits 32 digits.reverse
  fits : value < 2 ^ 128

/-- The digits of the characters up to `z`. -/
theorem ulidDigit_table : ∀ (code : Fin 123) (digit : Fin 32),
    ulidDigit (Char.ofNat code) = some digit.val ↔ UlidForm (Char.ofNat code) digit := by
  decide +kernel

theorem ulidDigit_lt_table :
    ∀ code : Fin 123, (ulidDigit (Char.ofNat code)).all (· < 32) = true := by
  decide +kernel

/-- No character after `z` is a digit. -/
theorem ulidDigit_eq_none {character : Char} (hcode : 123 ≤ character.toNat) :
    ulidDigit character = none ∧ ∀ digit, ¬UlidForm character digit := by
  have hupper : character.toUpper = character := by
    unfold Char.toUpper
    rw [dif_neg fun h ↦ absurd h.2 (by
      rw [UInt32.le_iff_toNat_le, not_le]
      exact hcode)]
  have hne (other : Char) (hother : other.toNat < 123) : character ≠ other := by
    rintro rfl
    omega
  have hnle (other : Char) (hother : other.toNat < 123) : ¬character ≤ other := by
    rw [Char.le_def, UInt32.le_iff_toNat_le, not_le]
    exact hother.trans_le hcode
  refine ⟨?_, fun digit ⟨hdigit, hform⟩ ↦ ?_⟩
  · simp only [ulidDigit, hupper]
    simp [hne, hnle]
  · rw [hupper] at hform
    rcases hform with hletter | ⟨-, halias⟩ | ⟨-, halias | halias⟩
    · have hsmall : ∀ digit : Fin 32, (ulidAlphabet.getD digit '0').toNat < 123 := by
        decide +kernel
      have hfound := hsmall ⟨digit, hdigit⟩
      rw [List.getD_eq_getElem?_getD, hletter] at hfound
      exact absurd hfound (not_lt.mpr hcode)
    · exact hne 'O' (by decide) halias
    · exact hne 'I' (by decide) halias
    · exact hne 'L' (by decide) halias

theorem ulidDigit_iff {character : Char} {digit : ℕ} :
    ulidDigit character = some digit ↔ UlidForm character digit := by
  by_cases hcode : character.toNat < 123
  · have htable := ulidDigit_table ⟨character.toNat, hcode⟩
    have hsmall := ulidDigit_lt_table ⟨character.toNat, hcode⟩
    simp only [Char.ofNat_toNat] at htable hsmall
    constructor
    · intro hdigit
      rw [hdigit, Option.all_some, decide_eq_true_eq] at hsmall
      exact (htable ⟨digit, hsmall⟩).mp hdigit
    · intro hform
      exact (htable ⟨digit, hform.1⟩).mpr hform
  · obtain ⟨hnone, hform⟩ := ulidDigit_eq_none (not_lt.mp hcode)
    rw [hnone]
    exact ⟨fun h ↦ (nomatch h), fun h ↦ absurd h (hform digit)⟩

/-! ### Accumulation -/

/-- The number that digits write after a value. -/
def accumulate (value : ℕ) (digits : List ℕ) : ℕ :=
  digits.foldl (fun value digit ↦ value * 32 + digit) value

theorem accumulate_zero (digits : List ℕ) :
    accumulate 0 digits = Nat.ofDigits 32 digits.reverse := by
  induction digits using List.reverseRecOn with
  | nil => rfl
  | append_singleton digits digit ih =>
    rw [List.reverse_append, List.reverse_singleton, List.singleton_append, Nat.ofDigits_cons, ← ih]
    simp only [accumulate, List.foldl_append, List.foldl_cons, List.foldl_nil]
    rw [Nat.add_comm, Nat.mul_comm]

theorem le_accumulate (value : ℕ) (digits : List ℕ) :
    value * 32 ^ digits.length ≤ accumulate value digits := by
  induction digits generalizing value with
  | nil => exact (Nat.mul_one value).le
  | cons digit rest ih =>
    refine le_trans ?_ (ih (value * 32 + digit))
    rw [List.length_cons, pow_succ', ← Nat.mul_assoc]
    exact Nat.mul_le_mul_right _ (Nat.le_add_right _ _)

theorem accumulate_lt {value : ℕ} {digits : List ℕ} (hdigits : ∀ digit ∈ digits, digit < 32) :
    accumulate value digits < (value + 1) * 32 ^ digits.length := by
  induction digits generalizing value with
  | nil => exact (Nat.lt_succ_self value).trans_eq (Nat.mul_one _).symm
  | cons digit rest ih =>
    rw [List.forall_mem_cons] at hdigits
    refine lt_of_lt_of_le (ih hdigits.2) ?_
    rw [List.length_cons, pow_succ', ← Nat.mul_assoc]
    have hstep : value * 32 + digit + 1 ≤ (value + 1) * 32 := by
      have := hdigits.1
      omega
    exact Nat.mul_le_mul_right _ hstep

theorem foldl_ulidStep_error (text : List Char) (error : UlidError) :
    text.foldl ulidStep (.error error) = .error error := by
  induction text with
  | nil => rfl
  | cons character rest ih => exact ih

/-- After the first digit the parse returns exactly the number the digits write, when it fits. -/
theorem foldl_ulidStep_iff {text : List Char} {index value : ℕ} {result : ℕ × ℕ}
    (hvalue : value < 2 ^ 128) : text.foldl ulidStep (.ok (index + 1, value)) = .ok result ↔
      ∃ digits, List.Forall₂ UlidForm text digits ∧
        result = (index + 1 + text.length, accumulate value digits) ∧
        accumulate value digits < 2 ^ 128 := by
  induction text generalizing index value with
  | nil =>
    simp only [List.foldl_nil, Except.ok.injEq, List.forall₂_nil_left_iff, exists_eq_left,
      List.length_nil, Nat.add_zero, accumulate, hvalue, and_true]
    exact eq_comm
  | cons character rest ih =>
    simp only [List.foldl_cons, List.forall₂_cons_left_iff, ulidStep]
    cases hdigit : ulidDigit character with
    | none =>
      rw [foldl_ulidStep_error]
      refine ⟨fun h ↦ (by cases h), ?_⟩
      rintro ⟨_, ⟨digit, _, hform, _⟩, _⟩
      rw [ulidDigit_iff.mpr hform] at hdigit
      cases hdigit
    | some digit =>
      simp only [Nat.add_eq_zero_iff, one_ne_zero, and_false, false_and, if_false]
      have hunique (other : ℕ) : UlidForm character other ↔ other = digit := by
        rw [← ulidDigit_iff, hdigit, Option.some.injEq, eq_comm]
      have hlength : index + 1 + (character :: rest).length = index + 1 + 1 + rest.length := by
        rw [List.length_cons]
        omega
      by_cases hfits : value * 32 + digit < 2 ^ 128
      · rw [if_pos hfits, ih hfits]
        constructor
        · rintro ⟨digits, hforms, hresult, hbound⟩
          exact ⟨digit :: digits, ⟨digit, digits, (hunique digit).mpr rfl, hforms, rfl⟩,
            hresult.trans (by rw [hlength]; rfl), hbound⟩
        · rintro ⟨_, ⟨other, digits, hform, hforms, hcons⟩, hresult, hbound⟩
          rw [(hunique other).mp hform] at hcons
          subst hcons
          exact ⟨digits, hforms, hresult.trans (by rw [hlength]; rfl), hbound⟩
      · rw [if_neg hfits, foldl_ulidStep_error]
        refine ⟨fun h ↦ (by cases h), ?_⟩
        rintro ⟨_, ⟨other, digits, hform, _, hcons⟩, _, hbound⟩
        rw [(hunique other).mp hform] at hcons
        subst hcons
        have hle := le_accumulate (value * 32 + digit) digits
        have hgrows := Nat.le_mul_of_pos_right (value * 32 + digit)
          (Nat.pow_pos (n := digits.length) (by decide : 0 < 32))
        exact absurd ((hgrows.trans hle).trans_lt hbound) hfits

theorem digit_lt_of_forms {text : List Char} {digits : List ℕ}
    (hforms : List.Forall₂ UlidForm text digits) : ∀ digit ∈ digits, digit < 32 := by
  induction hforms with
  | nil => exact fun digit hdigit ↦ absurd hdigit List.not_mem_nil
  | cons hform _ ih => exact List.forall_mem_cons.mpr ⟨hform.1, ih⟩

/-- Where the first digit is at most seven, no value on the way overflows 128 bits. -/
theorem accumulation_fits {text : List Char} {digits : List ℕ}
    (hforms : List.Forall₂ UlidForm text digits) (hlength : text.length ≤ 26)
    (hfirst : digits.headD 0 ≤ 7) : Nat.ofDigits 32 digits.reverse < 2 ^ 128 := by
  rw [← accumulate_zero]
  cases hforms with
  | nil => decide
  | @cons _ digit _ rest hform hrest =>
    rw [List.headD_cons] at hfirst
    have hlt : accumulate (0 * 32 + digit) rest < (0 * 32 + digit + 1) * 32 ^ rest.length :=
      accumulate_lt (digit_lt_of_forms hrest)
    rw [List.length_cons, hrest.length_eq] at hlength
    have hpow : 32 ^ rest.length ≤ 32 ^ 25 := Nat.pow_le_pow_right (by decide) (by omega)
    calc accumulate 0 (digit :: rest) < (0 * 32 + digit + 1) * 32 ^ rest.length := hlt
      _ ≤ 8 * 32 ^ 25 := Nat.mul_le_mul (by omega) hpow
      _ = 2 ^ 128 := by decide

/-- The parser accepts what denotes an identity, and returns it. -/
theorem parseUlid_iff {input : String} {id : Ulid} :
    parseUlid input = .ok id ↔ UlidDenotes input.toList id.val := by
  unfold parseUlid
  by_cases hlength : input.toList.length = 26
  swap
  · rw [if_pos hlength]
    exact ⟨fun h ↦ (by cases h), fun h ↦ absurd h.length hlength⟩
  rw [if_neg (not_not.mpr hlength)]
  cases htext : input.toList with
  | nil =>
    rw [htext] at hlength
    cases hlength
  | cons first rest =>
    rw [htext, List.length_cons] at hlength
    have hcount : rest.length = 25 := by omega
    rw [List.foldl_cons, ulidStep]
    cases hdigit : ulidDigit first with
    | none =>
      dsimp only
      rw [foldl_ulidStep_error]
      refine ⟨fun h ↦ (by cases h), ?_⟩
      rintro ⟨_, ⟨digits, hforms, _⟩, _⟩
      obtain ⟨digit, _, hform, _⟩ := List.forall₂_cons_left_iff.mp hforms
      rw [ulidDigit_iff.mpr hform] at hdigit
      cases hdigit
    | some digit =>
      have hcons {digits : List ℕ} (hforms : List.Forall₂ UlidForm (first :: rest) digits) :
          ∃ others, List.Forall₂ UlidForm rest others ∧ digits = digit :: others := by
        obtain ⟨other, others, hform, hothers, rfl⟩ := List.forall₂_cons_left_iff.mp hforms
        rw [← ulidDigit_iff, hdigit, Option.some.injEq] at hform
        exact ⟨others, hothers, by rw [hform]⟩
      dsimp only
      by_cases hhigh : digit > 7
      · rw [if_pos ⟨rfl, hhigh⟩, foldl_ulidStep_error]
        refine ⟨fun h ↦ (by cases h), ?_⟩
        rintro ⟨_, ⟨digits, hforms, hvalue⟩, hfits⟩
        obtain ⟨others, hothers, rfl⟩ := hcons hforms
        rw [← accumulate_zero] at hvalue
        have hle : (0 * 32 + digit) * 32 ^ others.length ≤ accumulate 0 (digit :: others) :=
          le_accumulate (0 * 32 + digit) others
        rw [← hothers.length_eq, hcount] at hle
        omega
      · have hsmall : 0 * 32 + digit < 2 ^ 128 := by omega
        rw [if_neg fun h ↦ hhigh h.2, if_pos hsmall]
        constructor
        · intro hparse
          split at hparse
          · cases hparse
          · next index value hfold =>
            obtain ⟨digits, hforms, hresult, hfits⟩ := (foldl_ulidStep_iff hsmall).mp hfold
            have hid : id.val = accumulate (0 * 32 + digit) digits := by
              rw [← Except.ok.inj hparse, ← (Prod.mk.inj hresult).2]
              exact Nat.mod_eq_of_lt ((Prod.mk.inj hresult).2 ▸ hfits)
            refine ⟨by rw [List.length_cons]; omega, ⟨digit :: digits, ?_, ?_⟩, id.isLt⟩
            · exact .cons (ulidDigit_iff.mp hdigit) hforms
            · rw [hid, ← accumulate_zero]
              rfl
        · rintro ⟨_, ⟨digits, hforms, hvalue⟩, hfits⟩
          obtain ⟨others, hothers, rfl⟩ := hcons hforms
          have haccumulate : accumulate (0 * 32 + digit) others = id.val := by
            rw [hvalue, ← accumulate_zero]
            rfl
          rw [(foldl_ulidStep_iff hsmall).mpr ⟨others, hothers, rfl, haccumulate.trans_lt hfits⟩]
          dsimp only
          rw [haccumulate, Except.ok.injEq]
          exact Fin.ofNat_val_eq_self id

/-! ### Order -/

theorem ulidDigits_succ (count value : ℕ) : ulidDigits (count + 1) value =
    ulidAlphabet.getD (value / 32 ^ count % 32) '0' :: ulidDigits count value := by
  induction count generalizing value with
  | zero => simp [ulidDigits]
  | succ count ih =>
    rw [ulidDigits, ih, ulidDigits, List.cons_append, Nat.div_div_eq_div_mul, ← pow_succ']

theorem alphabet_lt : ∀ first second : Fin 32,
    ulidAlphabet.getD first '0' < ulidAlphabet.getD second '0' ↔ first < second := by
  decide +kernel

theorem alphabet_inj : ∀ first second : Fin 32,
    ulidAlphabet.getD first '0' = ulidAlphabet.getD second '0' ↔ first = second := by
  decide +kernel

/-- Digits of one length are ordered as the numbers they write. -/
theorem ulidDigits_lt_iff (count first second : ℕ) :
    ulidDigits count first < ulidDigits count second ↔
      first % 32 ^ count < second % 32 ^ count := by
  induction count with
  | zero => simp [ulidDigits, Nat.mod_one]
  | succ count ih =>
    have hlow := Nat.mod_lt (first / 32 ^ count) (by decide : 0 < 32)
    have hhigh := Nat.mod_lt (second / 32 ^ count) (by decide : 0 < 32)
    rw [ulidDigits_succ, ulidDigits_succ, List.cons_lt_cons_iff, ih,
      alphabet_lt ⟨_, hlow⟩ ⟨_, hhigh⟩, alphabet_inj ⟨_, hlow⟩ ⟨_, hhigh⟩, pow_succ, Nat.mod_mul,
      Nat.mod_mul, Fin.mk_lt_mk, Fin.mk.injEq]
    generalize first / 32 ^ count % 32 = low
    generalize second / 32 ^ count % 32 = high
    have hpos : 0 < 32 ^ count := Nat.pow_pos (by decide)
    have hfirst := Nat.mod_lt first hpos
    have hsecond := Nat.mod_lt second hpos
    generalize 32 ^ count = base at *
    rcases lt_trichotomy low high with hlt | rfl | hgt
    · have hstep := Nat.mul_le_mul_left base (Nat.succ_le_of_lt hlt)
      rw [Nat.mul_succ] at hstep
      exact iff_of_true (.inl hlt) (by omega)
    · simp
    · have hstep := Nat.mul_le_mul_left base (Nat.succ_le_of_lt hgt)
      rw [Nat.mul_succ] at hstep
      exact iff_of_false (by omega) (by omega)

theorem ulidText_lt_iff (first second : Ulid) :
    ulidText first < ulidText second ↔ first < second := by
  have hbound : 2 ^ 128 ≤ 32 ^ 26 := by decide
  rw [String.lt_iff_toList_lt, ulidText, ulidText, String.toList_ofList, String.toList_ofList,
    ulidDigits_lt_iff, Nat.mod_eq_of_lt (first.isLt.trans_le hbound),
    Nat.mod_eq_of_lt (second.isLt.trans_le hbound)]
  rfl

theorem mem_alphabet_of_ulidDigits {count value : ℕ} {character : Char}
    (hmem : character ∈ ulidDigits count value) : character ∈ ulidAlphabet := by
  have hdigit : ∀ digit : Fin 32, ulidAlphabet.getD digit '0' ∈ ulidAlphabet := by decide +kernel
  induction count with
  | zero => exact absurd hmem List.not_mem_nil
  | succ count ih =>
    rw [ulidDigits_succ, List.mem_cons] at hmem
    rcases hmem with rfl | hrest
    · exact hdigit ⟨value / 32 ^ count % 32, Nat.mod_lt _ (by decide)⟩
    · exact ih hrest

/-- Texts read back, have 26 characters of the alphabet and are ordered as their values; the parser
accepts exactly the strings that denote an identity, returns what they denote, and does not overflow
after the first digit; so two accepted spellings are equal when they denote the same value. -/
theorem ulid_text :
    (∀ id : Ulid, parseUlid (ulidText id) = .ok id ∧ (ulidText id).toList.length = 26 ∧
      ∀ character ∈ (ulidText id).toList, character ∈ ulidAlphabet) ∧
    (∀ first second : Ulid, ulidText first < ulidText second ↔ first < second) ∧
    (∀ (input : String) (id : Ulid), parseUlid input = .ok id ↔ UlidDenotes input.toList id.val) ∧
    (∀ (input : String), (∃ id, parseUlid input = .ok id) ↔
      ∃ value, UlidDenotes input.toList value) ∧
    (∀ (text : List Char) (digits : List ℕ), List.Forall₂ UlidForm text digits →
      text.length ≤ 26 → digits.headD 0 ≤ 7 → Nat.ofDigits 32 digits.reverse < 2 ^ 128) ∧
    ∀ (first second : String) (low high : ℕ), UlidDenotes first.toList low →
      UlidDenotes second.toList high → (parseUlid first = parseUlid second ↔ low = high) := by
  have hreturns {input : String} {value : ℕ} (hdenotes : UlidDenotes input.toList value) :
      parseUlid input = .ok ⟨value, hdenotes.fits⟩ := parseUlid_iff.mpr hdenotes
  refine ⟨fun id ↦ ⟨parse_ulidText id, ?_, ?_⟩, ulidText_lt_iff, fun input id ↦ parseUlid_iff,
    fun input ↦ ⟨?_, ?_⟩, ?_, ?_⟩
  · rw [ulidText, String.toList_ofList, length_ulidDigits]
  · rw [ulidText, String.toList_ofList]
    exact fun character ↦ mem_alphabet_of_ulidDigits
  · intro ⟨id, hparse⟩
    exact ⟨id.val, parseUlid_iff.mp hparse⟩
  · intro ⟨value, hdenotes⟩
    exact ⟨_, hreturns hdenotes⟩
  · intro text digits hforms hlength hfirst
    exact accumulation_fits hforms hlength hfirst
  · intro first second low high hfirst hsecond
    rw [hreturns hfirst, hreturns hsecond, Except.ok.injEq, Fin.mk.injEq]

/-- Lower-case aliases spell the least identity. -/
theorem aliases_agree :
    parseUlid "00000000000000000000000000" = parseUlid "OoOoOoOoOoOoOoOoOoOoOoOoOo" :=
  have hzeros : UlidDenotes "00000000000000000000000000".toList 0 :=
    ⟨by decide, ⟨List.replicate 26 0, by decide +kernel, by decide⟩, by decide⟩
  have haliases : UlidDenotes "OoOoOoOoOoOoOoOoOoOoOoOoOo".toList 0 :=
    ⟨by decide, ⟨List.replicate 26 0, by decide +kernel, by decide⟩, by decide⟩
  (ulid_text.2.2.2.2.2 _ _ 0 0 hzeros haliases).mpr rfl

end Crpg.Core
