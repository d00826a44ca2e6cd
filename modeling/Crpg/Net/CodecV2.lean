import Crpg.Net.Codec

/-!
# The second wire

`crpg-net/src/codec_v2.rs`. The second wire repeats the frames of the first under another version
byte and adds three operations that carry projected events. Texts are read with their length checked
before their bytes are looked at.

`lane_formats` says of both versions and both directions that encoding and decoding are inverse on
the frames the encoder takes, which are exactly the encodable ones, and that a frame of operations
of the first wire has the same bytes on both but for the first.
-/

set_option autoImplicit false

namespace Crpg.Net

open Crpg.Core Crpg.Lib
open List (append_nil length_append)

/-! ### Texts -/

/-- The loop of `take_varint_len`: at most ten bytes, of which the tenth has one bit. -/
def takeVarintLenFrom : ℕ → WireReader ℕ
  | 0, _ => .error .malformed
  | _ + 1, [] => .error .malformed
  | fuel + 1, byte :: rest =>
    if fuel = 0 ∧ 1 < byte.toNat then .error .malformed
    else if byte.toNat < 128 then .ok (byte.toNat, rest)
    else do
      let high ← takeVarintLenFrom fuel rest
      .ok (byte.toNat % 128 + 128 * high.1, high.2)

def takeVarintLen : WireReader ℕ := takeVarintLenFrom 10

def takeBoundedStr : WireReader String := do
  let length ← takeVarintLen
  if maxWireStringBytes < length then throw .limitExceeded
  else do
    let body ← takeRaw .malformed length
    okOr .malformed (textOf body)

def takeUlid : WireReader Ulid := do
  let text ← takeBoundedStr
  match parseUlid text with
  | .error _ => throw .malformed
  | .ok id => pure id

def decimalOf (digits : List UInt8) : ℕ :=
  digits.foldl (fun value digit ↦ value * 10 + (digit.toNat - 48)) 0

/-- `valid_outcome`: the four degrees, or a custom one with a number below 256 in shortest form. -/
def validOutcome (text : String) : Bool :=
  if text ∈ ["critical_success", "success", "failure", "critical_failure"] then true
  else if (textBytes "custom:").isPrefixOf (textBytes text) = false then false
  else
    let rest := (textBytes text).drop (textBytes "custom:").length
    if rest = [] ∨ 3 < rest.length then false
    else if rest.all (fun byte ↦ 48 ≤ byte.toNat && byte.toNat ≤ 57) = false then false
    else if 1 < rest.length ∧ rest.head? = some 48 then false
    else decimalOf rest ≤ 255

def checkOutcome (text : String) : Except CodecError Unit :=
  if maxWireStringBytes < (textBytes text).length then .error .limitExceeded
  else if validOutcome text = false then .error .malformed
  else .ok ()

def checkUlidText (text : String) : Except CodecError Unit :=
  if maxWireStringBytes < (textBytes text).length then .error .limitExceeded else .ok ()

def takeOutcome : WireReader String := do
  let text ← takeBoundedStr
  if validOutcome text = false then throw .malformed else pure text

/-- The hand-written reader of lengths is the reader of the format. -/
theorem takeVarintLen_eq : takeVarintLen = takeU64 := by
  have hloop (fuel : ℕ) (bytes : List UInt8) : takeVarintLenFrom fuel bytes =
      (takeVarintFrom 1 fuel bytes).elim (.error .malformed) .ok := by
    induction fuel generalizing bytes with
    | zero => rfl
    | succ fuel ih =>
      cases bytes with
      | nil => rfl
      | cons byte rest =>
        rw [takeVarintLenFrom, takeVarintFrom]
        by_cases hsmall : byte.toNat < 128
        · by_cases hlast : fuel = 0 ∧ 1 < byte.toNat
          · rw [if_pos hlast, if_pos hsmall, if_pos hlast, Option.elim_none]
          · rw [if_neg hlast, if_pos hsmall, if_pos hsmall, if_neg hlast, Option.elim_some]
        · rw [if_neg hsmall, if_neg hsmall, ih rest]
          cases fuel with
          | zero =>
            rw [if_pos ⟨rfl, by omega⟩]
            rfl
          | succ fuel =>
            rw [if_neg (fun hlast ↦ Nat.succ_ne_zero fuel hlast.1)]
            cases takeVarintFrom 1 (fuel + 1) rest <;> rfl
  have hlast : 2 ^ (64 % 7) - 1 = 1 := rfl
  have hmax : varintMax 64 = 10 := by decide
  funext bytes
  rw [takeVarintLen, hloop, takeU64, takeVarint, hlast, hmax]
  cases takeVarintFrom 1 10 bytes <;> rfl

theorem codes_boundedStr :
    Codes (fun text bytes ↦ (textBytes text).length ≤ maxWireStringBytes ∧ bytes = putText text)
      takeBoundedStr := by
  have hlength : Codes (fun length bytes ↦ length < 2 ^ 64 ∧ bytes = putInt 64 length)
      takeVarintLen := takeVarintLen_eq ▸ codes_u64
  refine (hlength.bind fun length _ ↦ ((codes_raw _ length).bind fun body _ ↦
    Codes.okOr _ (textOf body)).guard CodecError.limitExceeded (maxWireStringBytes < length)).congr
      fun text bytes ↦ ⟨?_, ?_⟩
  · rintro ⟨length, -, -, ⟨-, rfl⟩, ⟨hbound, body, front, -, ⟨hbody, hfront⟩, ⟨htext, rfl⟩, rfl⟩,
      rfl⟩
    rw [textOf_eq_some_iff] at htext
    subst hbody htext
    rw [append_nil, hfront, putText]
    exact ⟨not_lt.mp hbound, rfl⟩
  · rintro ⟨hbound, rfl⟩
    have hsize : (textBytes text).length < 2 ^ 64 := hbound.trans_lt (by decide)
    exact ⟨_, _, _, ⟨hsize, rfl⟩, ⟨not_lt.mpr hbound, _, _, _, ⟨rfl, rfl⟩,
      ⟨textOf_eq_some_iff.mpr rfl, rfl⟩, rfl⟩, by rw [append_nil, putText]⟩

theorem codes_takeUlid : Codes (fun id bytes ↦ bytes = putText (ulidText id)) takeUlid :=
  codes_ulid codes_boundedStr (fun _ _ hcanonical ↦ hcanonical.2) fun id ↦ by
    rw [length_textBytes_ulidText]
    exact ⟨by decide, rfl⟩

theorem length_of_validOutcome {text : String} (hvalid : validOutcome text = true) :
    (textBytes text).length ≤ 16 := by
  unfold validOutcome at hvalid
  by_cases hdegree : text ∈ ["critical_success", "success", "failure", "critical_failure"]
  · have hall : ∀ degree ∈ ["critical_success", "success", "failure", "critical_failure"],
        (textBytes degree).length ≤ 16 := by decide
    exact hall text hdegree
  · rw [if_neg hdegree] at hvalid
    have hseven : (textBytes "custom:").length = 7 := by decide
    dsimp only at hvalid
    split_ifs at hvalid with hstart hrest
    all_goals
      rw [List.length_drop, hseven, not_or] at hrest
      omega

theorem codes_outcome :
    Codes (fun text bytes ↦ validOutcome text = true ∧ bytes = putText text) takeOutcome := by
  refine (codes_boundedStr.bind fun text _ ↦ (Codes.pure text).guard CodecError.malformed
    (validOutcome text = false)).congr fun text bytes ↦ ⟨?_, ?_⟩
  · rintro ⟨read, -, -, ⟨-, rfl⟩, ⟨hvalid, rfl, rfl⟩, rfl⟩
    rw [append_nil]
    exact ⟨(Bool.not_eq_false _).mp hvalid, rfl⟩
  · rintro ⟨hvalid, rfl⟩
    have hbound : (textBytes text).length ≤ maxWireStringBytes :=
      (length_of_validOutcome hvalid).trans (by decide)
    exact ⟨text, _, [], ⟨hbound, rfl⟩, ⟨(Bool.not_eq_false _).mpr hvalid, rfl, rfl⟩,
      (append_nil _).symm⟩

/-! ### Intents -/

/-- `PROTOCOL_VERSION` of the second wire. -/
def protocolVersionV2 : ℕ := 2

/-- `encode_intent` of the second wire, which repeats the first under its version. -/
def encodeIntentV2 (frame : IntentFrame) : Except CodecError (List UInt8) :=
  encodeIntentOf protocolVersionV2 frame

/-- `decode_intent` of the second wire. -/
def decodeIntentV2 (bytes : List UInt8) : Except CodecError IntentFrame :=
  decodeIntentOf protocolVersionV2 takeUlid bytes

/-! ### Operations -/

@[match_pattern] abbrev deltaTagActionResolved : ℕ := 8
@[match_pattern] abbrev deltaTagTurnStarted : ℕ := 9
@[match_pattern] abbrev deltaTagEncounterEnded : ℕ := 10

/-- `extend_legacy_op`, which repeats `extend_op` of the first wire. -/
def extendLegacyOp (op : DeltaOp) : Except CodecError (List UInt8) := extendOp op

/-- `take_legacy_op_after`, which repeats `take_op` of the first wire after its tag. -/
def takeLegacyOpAfter (tag : ℕ) : WireReader DeltaOp := takeOpAfter tag

/-- `extend_op` of the second wire. -/
def extendOpV2 : DeltaOpV2 → Except CodecError (List UInt8)
  | .legacy op => extendLegacyOp op
  | .actionResolved actor target ability outcome damage => do
    let text := ulidText ability
    checkUlidText text
    checkOutcome outcome
    .ok (putByte deltaTagActionResolved ++ (putInt 64 actor ++ (putInt 64 target ++
      (putText text ++ (putText outcome ++ putInt 32 damage)))))
  | .turnStarted actor round =>
    .ok (putByte deltaTagTurnStarted ++ (putInt 64 actor ++ putInt 64 round))
  | .encounterEnded encounter round => do
    let text := ulidText encounter
    checkUlidText text
    .ok (putByte deltaTagEncounterEnded ++ (putText text ++ putInt 64 round))

def takeOpAfterV2 : ℕ → WireReader DeltaOpV2
  | deltaTagActionResolved => do
    let actor ← takeNetId
    let target ← takeNetId
    let ability ← takeUlid
    let outcome ← takeOutcome
    let damage ← takeU32
    pure (.actionResolved actor target ability outcome damage)
  | deltaTagTurnStarted => do
    let actor ← takeNetId
    let round ← takeU64
    pure (.turnStarted actor round)
  | deltaTagEncounterEnded => do
    let encounter ← takeUlid
    let round ← takeU64
    pure (.encounterEnded encounter round)
  | tag => if tag ≤ deltaTagReceipt then do
      let op ← takeLegacyOpAfter tag
      pure (.legacy op)
    else throw .unknownMessage

/-- `take_op` of the second wire. -/
def takeOpV2 : WireReader DeltaOpV2 := do
  let tag ← takeU8
  takeOpAfterV2 tag

namespace DeltaOpV2

/-- The fields of an operation fit their types. -/
def Fits : DeltaOpV2 → Prop
  | legacy op => op.Fits
  | actionResolved actor target _ _ damage =>
    (actor : ℕ) < 2 ^ 64 ∧ (target : ℕ) < 2 ^ 64 ∧ damage < 2 ^ 32
  | turnStarted actor round => (actor : ℕ) < 2 ^ 64 ∧ round < 2 ^ 64
  | encounterEnded _ round => round < 2 ^ 64

/-- An operation the encoder takes. -/
def Encodable : DeltaOpV2 → Prop
  | legacy op => op.Encodable
  | actionResolved _ _ _ outcome _ => validOutcome outcome = true
  | _ => True

def tag : DeltaOpV2 → ℕ
  | legacy op => op.tag
  | actionResolved .. => deltaTagActionResolved
  | turnStarted .. => deltaTagTurnStarted
  | encounterEnded .. => deltaTagEncounterEnded

theorem tag_lt (op : DeltaOpV2) : op.tag < 256 := by
  cases op with
  | legacy op => exact op.tag_lt
  | _ => exact Nat.le_of_ble_eq_true rfl

end DeltaOpV2

/-- The bytes of the fields of an operation of the second wire. -/
def putOpFieldsV2 : DeltaOpV2 → List UInt8
  | .legacy op => putOpFields op
  | .actionResolved actor target ability outcome damage =>
    putInt 64 actor ++ (putInt 64 target ++ (putText (ulidText ability) ++
      (putText outcome ++ putInt 32 damage)))
  | .turnStarted actor round => putInt 64 actor ++ putInt 64 round
  | .encounterEnded encounter round => putText (ulidText encounter) ++ putInt 64 round

/-- The bytes of an operation of the second wire. -/
def putOpV2 (op : DeltaOpV2) : List UInt8 := putByte op.tag ++ putOpFieldsV2 op

theorem checkUlidText_ulidText (id : Ulid) : checkUlidText (ulidText id) = .ok () := by
  rw [checkUlidText, length_textBytes_ulidText]
  exact if_neg (by decide)

theorem checkOutcome_eq_ok_iff {text : String} :
    checkOutcome text = .ok () ↔ validOutcome text = true := by
  unfold checkOutcome
  split_ifs with hlength hvalid
  · refine ⟨False.elim, fun hvalid ↦ ?_⟩
    exact absurd ((length_of_validOutcome hvalid).trans (by decide)) (not_le.mpr hlength)
  · exact ⟨False.elim, fun htrue ↦ nomatch htrue.symm.trans hvalid⟩
  · exact ⟨fun _ ↦ (Bool.not_eq_false _).mp hvalid, fun _ ↦ rfl⟩

theorem checkOutcome_ne_frameTooLarge (text : String) :
    checkOutcome text ≠ .error .frameTooLarge := by
  unfold checkOutcome
  split_ifs <;> exact nofun

theorem extendOpV2_eq_ok_iff {op : DeltaOpV2} {bytes : List UInt8} :
    extendOpV2 op = .ok bytes ↔ op.Encodable ∧ bytes = putOpV2 op := by
  have hplain {built : List UInt8} : (Except.ok built : Except CodecError _) = .ok bytes ↔
      True ∧ bytes = built := by
    rw [Except.ok.injEq, true_and]
    exact eq_comm
  cases op with
  | legacy op => exact extendOp_eq_ok_iff
  | actionResolved actor target ability outcome damage =>
    rw [extendOpV2, checkUlidText_ulidText]
    show (checkOutcome outcome >>= _) = _ ↔ _
    rw [except_bind_eq_ok_iff]
    constructor
    · rintro ⟨⟨⟩, hcheck, hbytes⟩
      exact ⟨checkOutcome_eq_ok_iff.mp hcheck, (Except.ok.inj hbytes).symm⟩
    · rintro ⟨hvalid, rfl⟩
      exact ⟨(), checkOutcome_eq_ok_iff.mpr hvalid, rfl⟩
  | turnStarted actor round => exact hplain
  | encounterEnded encounter round =>
    rw [extendOpV2, checkUlidText_ulidText]
    exact hplain

theorem extendOpV2_ne_frameTooLarge (op : DeltaOpV2) : extendOpV2 op ≠ .error .frameTooLarge := by
  cases op with
  | legacy op => exact extendOp_ne_frameTooLarge op
  | actionResolved actor target ability outcome damage =>
    rw [extendOpV2, checkUlidText_ulidText]
    show (checkOutcome outcome >>= _) ≠ _
    exact except_bind_ne_error (checkOutcome_ne_frameTooLarge outcome) fun _ _ ↦ nofun
  | turnStarted actor round => exact nofun
  | encounterEnded encounter round =>
    rw [extendOpV2, checkUlidText_ulidText]
    exact nofun

theorem length_putOpV2_le {op : DeltaOpV2} (hop : op.Encodable) : (putOpV2 op).length ≤ 80 := by
  have hint (value : ℕ) : (putInt 64 value).length ≤ 10 := length_putInt_le 64 value
  have hfields : (putOpFieldsV2 op).length ≤ 79 := by
    cases op with
    | legacy op => exact (length_putOpFields_le op).trans (by decide)
    | actionResolved actor target ability outcome damage =>
      have hactor := hint actor
      have htarget := hint target
      have hlength := hint (textBytes outcome).length
      have houtcome := length_of_validOutcome hop
      have hdamage : (putInt 32 damage).length ≤ 5 := length_putInt_le 32 damage
      simp only [putOpFieldsV2, length_append, length_putText_ulidText]
      rw [putText, length_append]
      omega
    | turnStarted actor round =>
      have hactor := hint actor
      have hround := hint round
      simp only [putOpFieldsV2, length_append]
      omega
    | encounterEnded encounter round =>
      have hround := hint round
      simp only [putOpFieldsV2, length_append, length_putText_ulidText]
      omega
  rw [putOpV2, putByte, length_append, List.length_singleton]
  omega

def CanonicalOpV2 (tag : ℕ) (op : DeltaOpV2) (bytes : List UInt8) : Prop :=
  op.tag = tag ∧ op.Fits ∧ op.Encodable ∧ bytes = putOpFieldsV2 op

theorem codes_actionResolved :
    Codes (CanonicalOpV2 deltaTagActionResolved) (takeOpAfterV2 deltaTagActionResolved) := by
  refine (codes_netId.bind fun actor _ ↦ codes_netId.bind fun target _ ↦ codes_takeUlid.bind
    fun ability _ ↦ codes_outcome.bind fun outcome _ ↦ codes_u32.bind fun damage _ ↦
      Codes.pure _).congr fun op bytes ↦ ⟨?_, ?_⟩
  · rintro ⟨actor, -, -, ⟨hactor, rfl⟩, ⟨target, -, -, ⟨htarget, rfl⟩, ⟨ability, -, -, rfl,
      ⟨outcome, -, -, ⟨houtcome, rfl⟩, ⟨damage, -, -, ⟨hdamage, rfl⟩, ⟨rfl, rfl⟩, rfl⟩, rfl⟩,
      rfl⟩, rfl⟩, rfl⟩
    rw [append_nil]
    exact ⟨rfl, ⟨hactor, htarget, hdamage⟩, houtcome, rfl⟩
  · rintro ⟨htag, hfits, hvalid, rfl⟩
    cases op with
    | actionResolved actor target ability outcome damage =>
      refine ⟨actor, _, _, ⟨hfits.1, rfl⟩, ⟨target, _, _, ⟨hfits.2.1, rfl⟩, ⟨ability, _, _, rfl,
        ⟨outcome, _, _, ⟨hvalid, rfl⟩, ⟨damage, _, [], ⟨hfits.2.2, rfl⟩, ⟨rfl, rfl⟩, rfl⟩, rfl⟩,
        rfl⟩, rfl⟩, ?_⟩
      rw [append_nil, putOpFieldsV2]
    | legacy op => cases op <;> exact nomatch htag
    | _ => exact nomatch htag

theorem codes_turnStarted :
    Codes (CanonicalOpV2 deltaTagTurnStarted) (takeOpAfterV2 deltaTagTurnStarted) := by
  refine (codes_netId.bind fun actor _ ↦ codes_u64.bind fun round _ ↦ Codes.pure _).congr
    fun op bytes ↦ ⟨?_, ?_⟩
  · rintro ⟨actor, -, -, ⟨hactor, rfl⟩, ⟨round, -, -, ⟨hround, rfl⟩, ⟨rfl, rfl⟩, rfl⟩, rfl⟩
    rw [append_nil]
    exact ⟨rfl, ⟨hactor, hround⟩, trivial, rfl⟩
  · rintro ⟨htag, hfits, -, rfl⟩
    cases op with
    | turnStarted actor round =>
      refine ⟨actor, _, _, ⟨hfits.1, rfl⟩, ⟨round, _, [], ⟨hfits.2, rfl⟩, ⟨rfl, rfl⟩, rfl⟩, ?_⟩
      rw [append_nil, putOpFieldsV2]
    | legacy op => cases op <;> exact nomatch htag
    | _ => exact nomatch htag

theorem codes_encounterEnded :
    Codes (CanonicalOpV2 deltaTagEncounterEnded) (takeOpAfterV2 deltaTagEncounterEnded) := by
  refine (codes_takeUlid.bind fun encounter _ ↦ codes_u64.bind fun round _ ↦ Codes.pure _).congr
    fun op bytes ↦ ⟨?_, ?_⟩
  · rintro ⟨encounter, -, -, rfl, ⟨round, -, -, ⟨hround, rfl⟩, ⟨rfl, rfl⟩, rfl⟩, rfl⟩
    rw [append_nil]
    exact ⟨rfl, hround, trivial, rfl⟩
  · rintro ⟨htag, hfits, -, rfl⟩
    cases op with
    | encounterEnded encounter round =>
      refine ⟨encounter, _, _, rfl, ⟨round, _, [], ⟨hfits, rfl⟩, ⟨rfl, rfl⟩, rfl⟩, ?_⟩
      rw [append_nil, putOpFieldsV2]
    | legacy op => cases op <;> exact nomatch htag
    | _ => exact nomatch htag

theorem DeltaOp.tag_le (op : DeltaOp) : op.tag ≤ deltaTagReceipt := by
  cases op <;> exact Nat.le_of_ble_eq_true rfl

theorem codes_opAfterV2 (tag : ℕ) : Codes (CanonicalOpV2 tag) (takeOpAfterV2 tag) := by
  by_cases hresolved : tag = deltaTagActionResolved
  · exact hresolved ▸ codes_actionResolved
  by_cases hstarted : tag = deltaTagTurnStarted
  · exact hstarted ▸ codes_turnStarted
  by_cases hended : tag = deltaTagEncounterEnded
  · exact hended ▸ codes_encounterEnded
  rw [takeOpAfterV2]
  · split_ifs with hlegacy
    · refine ((codes_opAfter tag).bind fun op _ ↦ Codes.pure _).congr fun op bytes ↦ ⟨?_, ?_⟩
      · rintro ⟨inner, -, -, ⟨htag, hfits, hencodable, rfl⟩, ⟨rfl, rfl⟩, rfl⟩
        rw [append_nil]
        exact ⟨htag, hfits, hencodable, rfl⟩
      · rintro ⟨htag, hfits, hencodable, rfl⟩
        cases op with
        | legacy inner =>
          exact ⟨inner, _, [], ⟨htag, hfits, hencodable, rfl⟩, ⟨rfl, rfl⟩,
            (append_nil _).symm⟩
        | actionResolved => exact absurd htag.symm hresolved
        | turnStarted => exact absurd htag.symm hstarted
        | encounterEnded => exact absurd htag.symm hended
    · refine (Codes.throw _).congr fun op bytes ↦ ⟨fun hfalse ↦ hfalse.elim, fun hop ↦ ?_⟩
      cases op with
      | legacy inner => exact hlegacy (hop.1 ▸ inner.tag_le)
      | actionResolved => exact hresolved hop.1.symm
      | turnStarted => exact hstarted hop.1.symm
      | encounterEnded => exact hended hop.1.symm
  · exact hresolved
  · exact hstarted
  · exact hended

theorem codes_opV2 : Codes (fun op bytes ↦ op.Fits ∧ extendOpV2 op = .ok bytes) takeOpV2 := by
  refine codes_tagged (fun op hempty ↦ ?_) fun tag htag ↦ (codes_opAfterV2 tag).congr
    fun op bytes ↦ ⟨?_, ?_⟩
  · exact absurd (extendOpV2_eq_ok_iff.mp hempty.2).2 (List.cons_ne_nil _ _).symm
  · rintro ⟨rfl, hfits, hencodable, rfl⟩
    exact ⟨hfits, extendOpV2_eq_ok_iff.mpr ⟨hencodable, rfl⟩⟩
  · rintro ⟨hfits, hextend⟩
    obtain ⟨hencodable, hbytes⟩ := extendOpV2_eq_ok_iff.mp hextend
    obtain ⟨rfl, rfl⟩ := putByte_append_inj htag op.tag_lt hbytes
    exact ⟨rfl, hfits, hencodable, rfl⟩

theorem opCodecV2 : OpCodec DeltaOpV2.Fits DeltaOpV2.Encodable putOpV2 extendOpV2 takeOpV2 where
  extend_iff := fun _ _ ↦ extendOpV2_eq_ok_iff
  short := fun _ hop ↦ length_putOpV2_le hop
  extend_ne := extendOpV2_ne_frameTooLarge
  codes := codes_opV2

/-! ### Delta frames -/

namespace DeltaFrameV2

def fields (frame : DeltaFrameV2) : DeltaFields DeltaOpV2 :=
  ⟨frame.lane, frame.serverTick, frame.eventSeq, frame.ops⟩

def ofFields (fields : DeltaFields DeltaOpV2) : DeltaFrameV2 :=
  ⟨fields.lane, fields.serverTick, fields.eventSeq, fields.ops⟩

def Fits (frame : DeltaFrameV2) : Prop := frame.fields.Fits DeltaOpV2.Fits

/-- A frame the encoder takes. -/
def Encodable (frame : DeltaFrameV2) : Prop := frame.fields.Encodable DeltaOpV2.Encodable

end DeltaFrameV2

/-- A frame the encoder of the first wire takes. -/
def DeltaFrame.Encodable (frame : DeltaFrame) : Prop := frame.fields.Encodable DeltaOp.Encodable

/-- The frame of the second wire with the operations of one of the first. -/
def DeltaFrame.legacy (frame : DeltaFrame) : DeltaFrameV2 :=
  ⟨frame.lane, frame.serverTick, frame.eventSeq, frame.ops.map .legacy⟩

/-- `encode_delta` of the second wire. -/
def encodeDeltaV2 (frame : DeltaFrameV2) : Except CodecError (List UInt8) :=
  encodeDeltaOf protocolVersionV2 extendOpV2 frame.fields

/-- `decode_delta` of the second wire. -/
def decodeDeltaV2 (bytes : List UInt8) : Except CodecError DeltaFrameV2 :=
  (decodeDeltaOf protocolVersionV2 takeOpV2 bytes).map DeltaFrameV2.ofFields

theorem intent_format :
    WireFormat IntentFrame.Fits IntentFrame.Encodable encodeIntent decodeIntent :=
  intentFormat codes_ability (by decide)

theorem intent_formatV2 :
    WireFormat IntentFrame.Fits IntentFrame.Encodable encodeIntentV2 decodeIntentV2 :=
  intentFormat codes_takeUlid (by decide)

theorem delta_format : WireFormat DeltaFrame.Fits DeltaFrame.Encodable encodeDelta decodeDelta := by
  have hversion : protocolVersion < 256 := by decide
  refine (opCodec.wireFormat hversion).map DeltaFrame.ofFields DeltaFrame.fields (fun _ ↦ rfl)
    (fun _ ↦ rfl) (fun frame ↦ ?_) fun _ ↦ Iff.rfl
  exact ⟨fun hfits ↦ ⟨hfits.lane, hfits.serverTick, hfits.eventSeq, hfits.ops⟩,
    fun hfits ↦ ⟨hfits.lane, hfits.serverTick, hfits.eventSeq, hfits.ops⟩⟩

theorem delta_formatV2 :
    WireFormat DeltaFrameV2.Fits DeltaFrameV2.Encodable encodeDeltaV2 decodeDeltaV2 := by
  have hversion : protocolVersionV2 < 256 := by decide
  exact (opCodecV2.wireFormat hversion).map DeltaFrameV2.ofFields DeltaFrameV2.fields
    (fun _ ↦ rfl) (fun _ ↦ rfl) (fun _ ↦ Iff.rfl) fun _ ↦ Iff.rfl

/-- The operations of the first wire have the same bytes on the second. -/
theorem extendOps_legacy (ops : List DeltaOp) :
    extendOps extendOpV2 (ops.map .legacy) = extendOps extendOp ops := by
  induction ops with
  | nil => rfl
  | cons op rest ih =>
    rw [List.map_cons, extendOps, extendOps, ih]
    rfl

/-- A frame of operations of the first wire has the same bytes on both wires but for the first. -/
theorem encodeDeltaV2_legacy (frame : DeltaFrame) :
    encodeDeltaV2 frame.legacy = (encodeDelta frame).map fun bytes ↦ 2 :: bytes.tail := by
  unfold encodeDeltaV2 encodeDelta encodeDeltaOf
  have hlength : frame.legacy.fields.ops.length = frame.fields.ops.length := List.length_map _
  have hops : extendOps extendOpV2 frame.legacy.fields.ops = extendOps extendOp frame.fields.ops :=
    extendOps_legacy frame.ops
  rw [hlength, hops]
  show (if frame.lane ≠ laneCombat then _ else _) = Except.map _ (if frame.lane ≠ laneCombat
    then _ else _)
  split_ifs
  · rfl
  · rfl
  · cases extendOps extendOp frame.fields.ops with
    | error fault => rfl
    | ok ops => exact capped_putByte _ protocolVersionV2 protocolVersion _

/-- A frame of the first wire begins with its version. -/
theorem head_encodeDelta {frame : DeltaFrame} {bytes : List UInt8}
    (hencode : encodeDelta frame = .ok bytes) : bytes.head? = some 1 := by
  obtain ⟨-, rfl⟩ := (opCodec.encodeDeltaOf_iff _ _ _).mp hencode
  rfl

/-- Both versions of the wire, in both directions: encoding and decoding are inverse, an encoder
takes exactly the encodable frames and never refuses one as too large, and what a decoder reads its
encoder takes. A frame of operations of the first wire has the same bytes on the second but for the
first. -/
theorem lane_formats : WireFormat IntentFrame.Fits IntentFrame.Encodable encodeIntent decodeIntent ∧
      WireFormat IntentFrame.Fits IntentFrame.Encodable encodeIntentV2 decodeIntentV2 ∧
      WireFormat DeltaFrame.Fits DeltaFrame.Encodable encodeDelta decodeDelta ∧
      WireFormat DeltaFrameV2.Fits DeltaFrameV2.Encodable encodeDeltaV2 decodeDeltaV2 ∧
      ∀ frame : DeltaFrame,
        encodeDeltaV2 frame.legacy = (encodeDelta frame).map (fun bytes ↦ 2 :: bytes.tail) ∧
          ∀ bytes, encodeDelta frame = .ok bytes → bytes.head? = some 1 :=
  ⟨intent_format, intent_formatV2, delta_format, delta_formatV2,
    fun frame ↦ ⟨encodeDeltaV2_legacy frame, fun _ ↦ head_encodeDelta⟩⟩

end Crpg.Net
