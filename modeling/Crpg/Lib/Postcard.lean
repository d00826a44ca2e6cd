import Crpg.Lib.Wire

/-!
# Primitive byte encodings

The primitives of a compact binary format: a byte, a flag, an integer of variable length, a raw run
of bytes and a text with its length in front. An integer of a width takes seven bits a byte, the low
ones first, with the high bit set on every byte but the last; a reader takes more bytes than it
needs, up to the number the width could need, and refuses a last byte beyond the width.
-/

set_option autoImplicit false

namespace Crpg.Lib

variable {ε : Type}

/-! ### Bytes and flags -/

def takeByte (fault : ε) : Reader ε ℕ
  | [] => .error fault
  | byte :: rest => .ok (byte.toNat, rest)

theorem codes_byte (fault : ε) :
    Codes (fun value bytes ↦ value < 256 ∧ bytes = [UInt8.ofNat value]) (takeByte fault) where
  reads := by
    rintro value bytes ⟨hvalue, rfl⟩ rest
    show Except.ok ((UInt8.ofNat value).toNat, rest) = _
    rw [UInt8.toNat_ofNat_of_lt' hvalue]
  sound := by
    intro bytes value rest hread
    cases bytes with
    | nil => exact absurd hread (error_ne_ok fault _)
    | cons byte later =>
      cases hread
      exact ⟨[byte], [UInt8.ofNat byte.toNat], rfl, ⟨byte.toNat_lt, rfl⟩, le_rfl⟩

def putBool (flag : Bool) : List UInt8 := [if flag then 1 else 0]

/-- Reads one flag. -/
def takeBool (fault : ε) : Reader ε Bool
  | [] => .error fault
  | byte :: rest =>
    if byte = 0 then .ok (false, rest) else if byte = 1 then .ok (true, rest) else .error fault

theorem codes_bool (fault : ε) :
    Codes (fun flag bytes ↦ bytes = putBool flag) (takeBool fault) where
  reads := by
    rintro flag bytes rfl rest
    cases flag <;> rfl
  sound := by
    intro bytes flag rest hread
    cases bytes with
    | nil => exact absurd hread (error_ne_ok fault _)
    | cons byte later =>
      refine ⟨[byte], putBool flag, ?_, rfl, le_rfl⟩
      unfold takeBool at hread
      dsimp only at hread
      split_ifs at hread
      · cases hread
        rfl
      · cases hread
        rfl

/-! ### Integers of variable length -/

/-- The bytes of an integer, at most a number of them. -/
def putVarint : ℕ → ℕ → List UInt8
  | 0, _ => []
  | fuel + 1, value =>
    if value < 128 then [UInt8.ofNat value]
    else UInt8.ofNat (value % 128 + 128) :: putVarint fuel (value / 128)

/-- Reads an integer of at most a number of bytes, the last of which is bounded. -/
def takeVarintFrom (last : ℕ) : ℕ → List UInt8 → Option (ℕ × List UInt8)
  | 0, _ => none
  | _ + 1, [] => none
  | fuel + 1, byte :: rest =>
    if byte.toNat < 128 then
      if fuel = 0 ∧ last < byte.toNat then none else some (byte.toNat, rest)
    else (takeVarintFrom last fuel rest).map fun high ↦
      (byte.toNat % 128 + 128 * high.1, high.2)

theorem length_putVarint_le (fuel value : ℕ) : (putVarint fuel value).length ≤ fuel := by
  induction fuel generalizing value with
  | zero => exact le_rfl
  | succ fuel ih =>
    unfold putVarint
    split_ifs
    · exact Nat.succ_le_succ (Nat.zero_le fuel)
    · exact Nat.succ_le_succ (ih (value / 128))

/-- An integer takes no more bytes than seven bits a byte need. -/
theorem length_putVarint_le_of_lt {fuel value count : ℕ} (hvalue : value < 128 ^ (count + 1)) :
    (putVarint fuel value).length ≤ count + 1 := by
  induction count generalizing fuel value with
  | zero =>
    cases fuel with
    | zero => exact Nat.zero_le _
    | succ fuel =>
      rw [putVarint, if_pos (by simpa using hvalue)]
      exact le_rfl
  | succ count ih =>
    cases fuel with
    | zero => exact Nat.zero_le _
    | succ fuel =>
      unfold putVarint
      split_ifs
      · exact Nat.succ_le_succ (Nat.zero_le _)
      · refine Nat.succ_le_succ (ih ?_)
        rw [pow_succ] at hvalue
        omega

theorem takeVarintFrom_putVarint {last fuel value : ℕ} (hlast : last < 128)
    (hvalue : value < 128 ^ fuel * (last + 1)) (rest : List UInt8) :
    takeVarintFrom last (fuel + 1) (putVarint (fuel + 1) value ++ rest) = some (value, rest) := by
  induction fuel generalizing value with
  | zero =>
    rw [pow_zero, one_mul] at hvalue
    have hbyte : (UInt8.ofNat value).toNat = value := UInt8.toNat_ofNat_of_lt' (by
      show value < 256
      omega)
    rw [putVarint, if_pos (by omega)]
    show takeVarintFrom last 1 (UInt8.ofNat value :: rest) = _
    rw [takeVarintFrom, hbyte, if_pos (by omega), if_neg (by omega)]
  | succ fuel ih =>
    rw [putVarint]
    by_cases hsmall : value < 128
    · have hbyte : (UInt8.ofNat value).toNat = value := UInt8.toNat_ofNat_of_lt' (by
        show value < 256
        omega)
      rw [if_pos hsmall]
      show takeVarintFrom last (fuel + 2) (UInt8.ofNat value :: rest) = _
      rw [takeVarintFrom, hbyte, if_pos hsmall, if_neg (by omega)]
    · have hbyte : (UInt8.ofNat (value % 128 + 128)).toNat = value % 128 + 128 :=
        UInt8.toNat_ofNat_of_lt' (by
          show value % 128 + 128 < 256
          omega)
      have hhigh : value / 128 < 128 ^ fuel * (last + 1) := by
        rw [pow_succ, mul_right_comm] at hvalue
        omega
      have hvalue : (value % 128 + 128) % 128 + 128 * (value / 128) = value := by omega
      rw [if_neg hsmall, List.cons_append, takeVarintFrom, hbyte, if_neg (by omega), ih hhigh,
        Option.map_some, hvalue]

theorem takeVarintFrom_sound {last fuel value : ℕ} {bytes rest : List UInt8}
    (hread : takeVarintFrom last (fuel + 1) bytes = some (value, rest)) :
    value < 128 ^ fuel * (last + 1) ∧ ∃ front, bytes = front ++ rest ∧
      (putVarint (fuel + 1) value).length ≤ front.length := by
  induction fuel generalizing value bytes with
  | zero =>
    cases bytes with
    | nil => exact absurd hread.symm (Option.some_ne_none _)
    | cons byte later =>
      unfold takeVarintFrom at hread
      split_ifs at hread with hsmall hbound
      · cases hread
        refine ⟨by omega, [byte], rfl, length_putVarint_le 1 _⟩
      · exact absurd hread.symm (Option.some_ne_none _)
  | succ fuel ih =>
    cases bytes with
    | nil => exact absurd hread.symm (Option.some_ne_none _)
    | cons byte later =>
      unfold takeVarintFrom at hread
      split_ifs at hread with hsmall hbound
      · cases hread
        refine ⟨?_, [byte], rfl, ?_⟩
        · have hpos : 0 < 128 ^ fuel * (last + 1) :=
            Nat.mul_pos (Nat.pow_pos (by decide)) (Nat.succ_pos last)
          rw [pow_succ, mul_right_comm]
          omega
        · rw [putVarint, if_pos hsmall]
          exact le_rfl
      · obtain ⟨⟨high, middle⟩, hhigh, heq⟩ := Option.map_eq_some_iff.mp hread
        simp only [Prod.mk.injEq] at heq
        obtain ⟨rfl, rfl⟩ := heq
        obtain ⟨hbound, front, hlater, hlength⟩ := ih hhigh
        refine ⟨?_, byte :: front, ?_, ?_⟩
        · rw [pow_succ, mul_right_comm]
          omega
        · rw [hlater, List.cons_append]
        · unfold putVarint
          split_ifs
          · exact Nat.succ_le_succ (Nat.zero_le _)
          · have hshift : (byte.toNat % 128 + 128 * high) / 128 = high := by omega
            rw [hshift]
            exact Nat.succ_le_succ hlength

/-- The most bytes an integer of a width takes. -/
def varintMax (width : ℕ) : ℕ := width / 7 + 1

/-- Reads an integer of a width. -/
def takeVarint (fault : ε) (width : ℕ) : Reader ε ℕ := fun bytes ↦
  match takeVarintFrom (2 ^ (width % 7) - 1) (varintMax width) bytes with
  | none => .error fault
  | some read => .ok read

/-- The bytes of an integer of a width. -/
@[irreducible]
def putInt (width value : ℕ) : List UInt8 := putVarint (varintMax width) value

theorem length_putInt_le (width value : ℕ) : (putInt width value).length ≤ varintMax width := by
  rw [putInt]
  exact length_putVarint_le _ _

theorem codes_varint (fault : ε) (width : ℕ) :
    Codes (fun value bytes ↦ value < 2 ^ width ∧ bytes = putInt width value)
      (takeVarint fault width) := by
  have hlast : 2 ^ (width % 7) - 1 < 128 := by
    have hpow : 2 ^ (width % 7) ≤ 2 ^ 7 :=
      Nat.pow_le_pow_right (by decide) (Nat.mod_lt _ (by decide)).le
    omega
  have hwidth : 128 ^ (width / 7) * (2 ^ (width % 7) - 1 + 1) = 2 ^ width := by
    rw [Nat.sub_add_cancel Nat.one_le_two_pow, show 128 = 2 ^ 7 from rfl, ← pow_mul, ← pow_add,
      Nat.div_add_mod]
  constructor
  · rintro value bytes ⟨hvalue, rfl⟩ rest
    rw [takeVarint, putInt, varintMax, takeVarintFrom_putVarint hlast (hwidth.symm ▸ hvalue)]
  · intro bytes value rest hread
    unfold takeVarint at hread
    split at hread
    · exact absurd hread (error_ne_ok fault _)
    · next result hresult =>
      cases hread
      obtain ⟨hvalue, front, hbytes, hlength⟩ := takeVarintFrom_sound hresult
      refine ⟨front, putInt width value, hbytes, ⟨hwidth ▸ hvalue, rfl⟩, ?_⟩
      rw [putInt]
      exact hlength

/-! ### Runs of bytes and texts -/

/-- Reads a number of bytes. -/
def takeRaw (fault : ε) (count : ℕ) : Reader ε (List UInt8) := fun bytes ↦
  if bytes.length < count then .error fault else .ok (bytes.take count, bytes.drop count)

theorem codes_raw (fault : ε) (count : ℕ) :
    Codes (fun value bytes ↦ value.length = count ∧ bytes = value) (takeRaw fault count) where
  reads := by
    rintro value bytes ⟨hlength, rfl⟩ rest
    unfold takeRaw
    rw [if_neg (by rw [List.length_append]; omega), ← hlength, List.take_left, List.drop_left]
  sound := by
    intro bytes value rest hread
    unfold takeRaw at hread
    split_ifs at hread with hshort
    cases hread
    exact ⟨bytes.take count, bytes.take count, (List.take_append_drop count bytes).symm,
      ⟨List.length_take_of_le (by omega), rfl⟩, le_rfl⟩

/-- Reads an array of a fixed length. -/
def takeArray (fault : ε) (count : ℕ) : Reader ε (Vector UInt8 count) := fun bytes ↦
  if hlength : (bytes.take count).toArray.size = count then
    .ok (⟨(bytes.take count).toArray, hlength⟩, bytes.drop count)
  else .error fault

theorem codes_array (fault : ε) (count : ℕ) :
    Codes (fun value bytes ↦ bytes = value.toList) (takeArray fault count) where
  reads := by
    rintro value bytes rfl rest
    have htake : (value.toList ++ rest).take count = value.toList :=
      List.take_left' value.length_toList
    have hdrop : (value.toList ++ rest).drop count = rest :=
      List.drop_left' value.length_toList
    unfold takeArray
    rw [dif_pos (by rw [htake, List.size_toArray, value.length_toList])]
    simp only [htake, hdrop, Except.ok.injEq, Prod.mk.injEq, and_true]
    exact Vector.toList_inj.mp (by simp)
  sound := by
    intro bytes value rest hread
    unfold takeArray at hread
    split_ifs at hread with hlength
    cases hread
    exact ⟨bytes.take count, bytes.take count, (List.take_append_drop count bytes).symm,
      by simp, le_rfl⟩

def textBytes (text : String) : List UInt8 := text.toUTF8.data.toList

def textOf (bytes : List UInt8) : Option String := String.fromUTF8? ⟨bytes.toArray⟩

theorem textOf_eq_some_iff {bytes : List UInt8} {text : String} :
    textOf bytes = some text ↔ bytes = textBytes text := by
  unfold textOf textBytes String.fromUTF8?
  constructor
  · intro hsome
    split_ifs at hsome
    cases hsome
    rfl
  · rintro rfl
    rw [dif_pos (by exact text.isValidUTF8)]
    rfl

theorem length_textBytes (text : String) :
    (textBytes text).length = (text.toList.map Char.utf8Size).sum := by
  have hbytes : textBytes text = text.toList.flatMap String.utf8EncodeChar := by
    have hencode : text.toByteArray = text.toList.utf8Encode := by
      rw [← String.toByteArray_ofList, String.ofList_toList]
    rw [textBytes, String.toUTF8_eq_toByteArray, hencode, List.utf8Encode, List.data_toByteArray]
  rw [hbytes, List.length_flatMap]
  congr 1
  exact List.map_congr_left fun character _ ↦ String.length_utf8EncodeChar character

theorem length_toList_le_length_textBytes (text : String) :
    text.toList.length ≤ (textBytes text).length := by
  rw [length_textBytes]
  induction text.toList with
  | nil => exact le_rfl
  | cons character rest ih =>
    rw [List.map_cons, List.sum_cons, List.length_cons]
    have hsize := character.utf8Size_pos
    omega

@[irreducible]
def putText (text : String) : List UInt8 :=
  putInt 64 (textBytes text).length ++ textBytes text

/-- Reads a text with its length in front. -/
def takeText (fault : ε) : Reader ε String := do
  let length ← takeVarint fault 64
  let body ← takeRaw fault length
  okOr fault (textOf body)

theorem codes_text (fault : ε) :
    Codes (fun text bytes ↦ (textBytes text).length < 2 ^ 64 ∧ bytes = putText text)
      (takeText fault) := by
  refine ((codes_varint fault 64).bind fun length _ ↦ (codes_raw fault length).bind
    fun body _ ↦ Codes.okOr fault (textOf body)).congr fun text bytes ↦ ⟨?_, ?_⟩
  · rintro ⟨length, -, -, ⟨hlength, rfl⟩, ⟨body, front, -, ⟨hbody, hfront⟩, ⟨htext, rfl⟩, rfl⟩,
      rfl⟩
    rw [textOf_eq_some_iff] at htext
    subst hbody htext
    rw [List.append_nil, hfront, putText]
    exact ⟨hlength, rfl⟩
  · rintro ⟨hlength, rfl⟩
    exact ⟨_, _, _, ⟨hlength, rfl⟩, ⟨_, _, _, ⟨rfl, rfl⟩,
      ⟨textOf_eq_some_iff.mpr rfl, rfl⟩, rfl⟩, by rw [List.append_nil, putText]⟩

end Crpg.Lib
