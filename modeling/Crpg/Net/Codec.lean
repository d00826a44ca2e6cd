import Crpg.Core.Ulid
import Crpg.Lib.Postcard
import Crpg.Net.Protocol

/-!
# The first wire

`crpg-net/src/codec.rs`. Frames are written field by field with the primitives of the binary format,
and read in the same order with each bound checked where the source checks it. The readers of the
primitives that both versions of the wire share are here too.

`codes_intent` and `codes_delta` tie each reader to its encoder: a frame the encoder accepts reads
back, and whatever is read is a frame the encoder accepts, with bytes no longer than those read.
`Fits` says that the fields of a frame are values of the integer types the source gives them.
-/

set_option autoImplicit false

namespace Crpg.Net

open Crpg.Core Crpg.Lib
open List (append_nil cons_ne_nil flatMap_cons forall_mem_cons length_append length_singleton
  not_mem_nil)

/-! ### Values of the wire types -/

def IntentBody.Fits : IntentBody → Prop
  | .declareAction _ target => (target : ℕ) < 2 ^ 64
  | .endTurn => True

structure IntentFrame.Fits (frame : IntentFrame) : Prop where
  lane : frame.lane < 256
  seq : frame.seq < 2 ^ 64
  observedTick : frame.observedTick < 2 ^ 64
  actor : (frame.actor : ℕ) < 2 ^ 64
  body : frame.body.Fits

/-- The fields of an operation fit their types. -/
def DeltaOp.Fits : DeltaOp → Prop
  | .entityEnter entity | .entityLeave entity | .spawned entity | .despawned entity
  | .died entity => (entity : ℕ) < 2 ^ 64
  | .health entity current most _ =>
    (entity : ℕ) < 2 ^ 64 ∧ current < 2 ^ 32 ∧ most < 2 ^ 32
  | .turn active round => (∀ entity ∈ active, (entity : ℕ) < 2 ^ 64) ∧ round < 2 ^ 64
  | .receipt _ lane seq processedTick _ =>
    lane < 256 ∧ seq < 2 ^ 64 ∧ processedTick < 2 ^ 64

structure DeltaFrame.Fits (frame : DeltaFrame) : Prop where
  lane : frame.lane < 256
  serverTick : frame.serverTick < 2 ^ 64
  eventSeq : frame.eventSeq < 2 ^ 64
  ops : ∀ op ∈ frame.ops, op.Fits

/-! ### Primitives -/

/-- A reader that fails as the codecs do. -/
abbrev WireReader := Reader CodecError

def putByte (value : ℕ) : List UInt8 := [UInt8.ofNat value]

/-- `u8`. -/
def takeU8 : WireReader ℕ := takeByte .malformed

/-- `u32`. -/
def takeU32 : WireReader ℕ := takeVarint .malformed 32

/-- `u64`. -/
def takeU64 : WireReader ℕ := takeVarint .malformed 64

/-- `bool`. -/
def takeFlag : WireReader Bool := takeBool .malformed

/-- `[u8; 16]`. -/
def takeEpoch : WireReader SessionEpoch := takeArray .malformed 16

/-- `NetId::new` and `TransferId::new`. -/
def nonzero (raw : ℕ) : Option ℕ+ := if hraw : 0 < raw then some ⟨raw, hraw⟩ else none

def takeNetId : WireReader NetId := do
  let raw ← takeU64
  okOr .malformed (nonzero raw)

/-- Whether a command sequence is out of range. -/
def seqOutOfRange (seq : ℕ) : Prop := seq < seqFirst ∨ seqLast < seq

instance (seq : ℕ) : Decidable (seqOutOfRange seq) := inferInstanceAs (Decidable (_ ∨ _))

def takeSeq : WireReader ℕ := do
  let seq ← takeU64
  if seqOutOfRange seq then throw .malformed else pure seq

def checkSeq (seq : ℕ) : Except CodecError Unit :=
  if seqOutOfRange seq then .error .malformed else .ok ()

/-- The last check of every encoder. -/
def capped (cap : ℕ) (out : List UInt8) : Except CodecError (List UInt8) :=
  if cap < out.length then .error .frameTooLarge else .ok out

theorem capped_putByte (cap first second : ℕ) (rest : List UInt8) :
    capped cap (putByte first ++ rest) = (capped cap (putByte second ++ rest)).map
      fun bytes ↦ UInt8.ofNat first :: bytes.tail := by
  have hlength : (putByte first ++ rest).length = (putByte second ++ rest).length := rfl
  unfold capped
  rw [hlength]
  split_ifs <;> rfl

theorem codes_u8 : Codes (fun value bytes ↦ value < 256 ∧ bytes = putByte value) takeU8 :=
  codes_byte _

theorem codes_u32 : Codes (fun value bytes ↦ value < 2 ^ 32 ∧ bytes = putInt 32 value) takeU32 :=
  codes_varint _ 32

theorem codes_u64 : Codes (fun value bytes ↦ value < 2 ^ 64 ∧ bytes = putInt 64 value) takeU64 :=
  codes_varint _ 64

theorem codes_flag : Codes (fun flag bytes ↦ bytes = putBool flag) takeFlag := codes_bool _

theorem codes_epoch : Codes (fun epoch bytes ↦ bytes = epoch.toList) takeEpoch := codes_array _ 16

theorem nonzero_eq_some_iff {raw : ℕ} {id : ℕ+} : nonzero raw = some id ↔ raw = (id : ℕ) := by
  unfold nonzero
  split_ifs with hraw
  · exact ⟨fun heq ↦ Option.some.inj heq ▸ rfl, fun heq ↦ congrArg some (PNat.eq heq)⟩
  · exact ⟨False.elim, fun heq ↦ absurd (heq ▸ id.pos) hraw⟩

theorem codes_netId :
    Codes (fun (id : NetId) bytes ↦ (id : ℕ) < 2 ^ 64 ∧ bytes = putInt 64 id) takeNetId := by
  refine (codes_u64.bind fun raw _ ↦ Codes.okOr _ (nonzero raw)).congr fun id bytes ↦ ⟨?_, ?_⟩
  · rintro ⟨raw, -, -, ⟨hraw, rfl⟩, ⟨hid, rfl⟩, rfl⟩
    rw [append_nil, ← nonzero_eq_some_iff.mp hid]
    exact ⟨hraw, rfl⟩
  · rintro ⟨hid, rfl⟩
    exact ⟨id, _, [], ⟨hid, rfl⟩, ⟨nonzero_eq_some_iff.mpr rfl, rfl⟩, (append_nil _).symm⟩

theorem codes_seq : Codes (fun seq bytes ↦ ¬seqOutOfRange seq ∧ bytes = putInt 64 seq) takeSeq := by
  refine (codes_u64.bind fun seq _ ↦ (Codes.pure seq).guard _ (seqOutOfRange seq)).congr
    fun seq bytes ↦ ⟨?_, ?_⟩
  · rintro ⟨raw, front, back, ⟨hraw, rfl⟩, ⟨hrange, rfl, rfl⟩, rfl⟩
    rw [append_nil]
    exact ⟨hrange, rfl⟩
  · rintro ⟨hrange, rfl⟩
    have hseq : seq < 2 ^ 64 := by
      unfold seqOutOfRange seqLast at hrange
      omega
    exact ⟨seq, _, [], ⟨hseq, rfl⟩, ⟨hrange, rfl, rfl⟩, (append_nil _).symm⟩

/-- `take_ability`: the text of an identity, in any of its spellings. -/
def takeAbility : WireReader Ulid := do
  let text ← takeText .malformed
  if maxWireStringBytes < (textBytes text).length then throw .limitExceeded
  else match parseUlid text with
    | .error _ => throw .malformed
    | .ok id => pure id

theorem length_textBytes_ulidText (id : Ulid) : (textBytes (ulidText id)).length = 26 := by
  rw [length_textBytes, ulidText, String.toList_ofList]
  have hsizes : (ulidDigits 26 id.val).map Char.utf8Size = List.replicate 26 1 := by
    rw [List.eq_replicate_iff, List.length_map, length_ulidDigits]
    refine ⟨rfl, fun size hsize ↦ ?_⟩
    obtain ⟨character, hmem, rfl⟩ := List.mem_map.mp hsize
    exact utf8Size_of_mem_ulidDigits hmem
  rw [hsizes]
  rfl

theorem length_putText_ulidText (id : Ulid) : (putText (ulidText id)).length = 27 := by
  rw [putText, length_append, length_textBytes_ulidText, putInt]
  rfl

/-- A text that is an identity takes at least as many bytes as the canonical one. -/
theorem length_putText_of_parseUlid {text : String} {id : Ulid} (hparse : parseUlid text = .ok id) :
    (putText (ulidText id)).length ≤ (putText text).length := by
  have hchars := length_toList_le_length_textBytes text
  rw [length_of_parseUlid hparse] at hchars
  have hlength : 1 ≤ (putInt 64 (textBytes text).length).length := by
    unfold putInt varintMax putVarint
    split_ifs
    · exact le_rfl
    · exact Nat.succ_le_succ (Nat.zero_le _)
  rw [length_putText_ulidText, putText, length_append]
  omega

/-- A reader of texts, then an identity in any of its spellings. Assumes: the reader takes the
canonical text. -/
theorem codes_ulid {canonical : String → List UInt8 → Prop} {read : WireReader String}
    (hcodes : Codes canonical read)
    (hcanonical : ∀ text bytes, canonical text bytes → bytes = putText text)
    (htext : ∀ id, canonical (ulidText id) (putText (ulidText id))) :
    Codes (fun (id : Ulid) bytes ↦ bytes = putText (ulidText id)) (do
      let text ← read
      match parseUlid text with
      | .error _ => throw .malformed
      | .ok id => pure id) where
  reads := by
    intro id bytes hbytes rest
    rw [hbytes, reader_bind (hcodes.reads (htext id) rest), parse_ulidText]
    rfl
  sound := by
    intro bytes id rest hread
    obtain ⟨text, middle, htake, hparse⟩ := reader_bind_eq_ok_iff.mp hread
    obtain ⟨front, shortest, hbytes, hshortest, hlength⟩ := hcodes.sound htake
    cases hparsed : parseUlid text with
    | error fault =>
      rw [hparsed] at hparse
      exact absurd hparse (error_ne_ok _ _)
    | ok parsed =>
      rw [hparsed] at hparse
      cases hparse
      refine ⟨front, _, hbytes, rfl, le_trans ?_ hlength⟩
      rw [hcanonical text shortest hshortest]
      exact length_putText_of_parseUlid hparsed

theorem codes_ability : Codes (fun id bytes ↦ bytes = putText (ulidText id)) takeAbility := by
  have hbounded : Codes (fun text bytes ↦ (textBytes text).length ≤ maxWireStringBytes ∧
      bytes = putText text) (do
        let text ← takeText .malformed
        if maxWireStringBytes < (textBytes text).length then throw .limitExceeded
        else pure text : WireReader String) := by
    refine ((codes_text _).bind fun text _ ↦ (Codes.pure text).guard _
      (maxWireStringBytes < (textBytes text).length)).congr fun text bytes ↦ ⟨?_, ?_⟩
    · rintro ⟨read, front, back, ⟨-, rfl⟩, ⟨hbound, rfl, rfl⟩, rfl⟩
      rw [append_nil]
      exact ⟨not_lt.mp hbound, rfl⟩
    · rintro ⟨hbound, rfl⟩
      have hsize : (textBytes text).length < 2 ^ 64 := hbound.trans_lt (by decide)
      exact ⟨text, _, [], ⟨hsize, rfl⟩, ⟨not_lt.mpr hbound, rfl, rfl⟩, (append_nil _).symm⟩
  have hulid := codes_ulid hbounded (fun _ _ hcanonical ↦ hcanonical.2) (fun id ↦ by
    rw [length_textBytes_ulidText]
    exact ⟨by decide, rfl⟩)
  convert hulid using 1
  unfold takeAbility
  rw [bind_assoc]
  congr 1
  funext text
  split_ifs <;> rfl

/-- A reader that dispatches on a tag. Assumes: no canonical form is empty. -/
theorem codes_tagged {α : Type} {canonical : α → List UInt8 → Prop} {next : ℕ → WireReader α}
    (hnonempty : ∀ value, ¬canonical value [])
    (hnext : ∀ tag < 256, Codes (fun value back ↦ canonical value (putByte tag ++ back))
      (next tag)) : Codes canonical (takeU8 >>= next) := by
  refine (codes_u8.bind fun tag htag ↦ hnext tag htag.choose_spec.1).congr
    fun value bytes ↦ ⟨?_, fun hcanonical ↦ ?_⟩
  · rintro ⟨tag, front, back, ⟨-, rfl⟩, hback, rfl⟩
    exact hback
  · cases bytes with
    | nil => exact absurd hcanonical (hnonempty value)
    | cons byte back =>
      have hbyte : putByte byte.toNat = [byte] := by rw [putByte, UInt8.ofNat_toNat]
      exact ⟨byte.toNat, putByte byte.toNat, back, ⟨byte.toNat_lt, rfl⟩, by rwa [hbyte],
        by rw [hbyte]; rfl⟩

theorem putByte_append_inj {first second : ℕ} (hfirst : first < 256) (hsecond : second < 256)
    {left right : List UInt8} (heq : putByte first ++ left = putByte second ++ right) :
    first = second ∧ left = right := by
  simp only [putByte, List.singleton_append, List.cons.injEq] at heq
  refine ⟨?_, heq.2⟩
  have htoNat := congrArg UInt8.toNat heq.1
  rwa [UInt8.toNat_ofNat_of_lt' hfirst, UInt8.toNat_ofNat_of_lt' hsecond] at htoNat

/-! ### Intents -/

/-- `PROTOCOL_VERSION` of the first wire. -/
def protocolVersion : ℕ := 1

@[match_pattern] abbrev intentTagDeclareAction : ℕ := 0
@[match_pattern] abbrev intentTagEndTurn : ℕ := 1

/-- The body of an intent, as `encode_intent` writes it. -/
def extendIntentBody : IntentBody → Except CodecError (List UInt8)
  | .declareAction ability target =>
    let text := ulidText ability
    if maxWireStringBytes < (textBytes text).length then .error .limitExceeded
    else .ok (putByte intentTagDeclareAction ++ putText text ++ putInt 64 target)
  | .endTurn => .ok (putByte intentTagEndTurn)

def encodeIntentOf (version : ℕ) (frame : IntentFrame) : Except CodecError (List UInt8) :=
  if frame.lane ≠ laneCombat then .error .wrongDirection
  else do
    checkSeq frame.seq
    let body ← extendIntentBody frame.body
    capped maxIntentFrameBytes (putByte version ++ frame.epoch.toList ++
      putByte frame.lane ++ putInt 64 frame.seq ++ putInt 64 frame.observedTick ++
      putInt 64 frame.actor ++ body)

def encodeIntent (frame : IntentFrame) : Except CodecError (List UInt8) :=
  encodeIntentOf protocolVersion frame

/-- The body of an intent, as `decode_intent` reads it with a reader of identities. -/
def takeIntentBody (takeUlid : WireReader Ulid) : WireReader IntentBody := do
  let tag ← takeU8
  match tag with
  | intentTagDeclareAction => do
    let ability ← takeUlid
    let target ← takeNetId
    pure (.declareAction ability target)
  | intentTagEndTurn => pure .endTurn
  | _ => throw .unknownMessage

/-- The fields of an intent of a version, as `decode_intent` reads them. -/
def takeIntent (expected : ℕ) (takeUlid : WireReader Ulid) : WireReader IntentFrame := do
  let version ← takeU8
  if version ≠ expected then throw .unsupportedVersion
  else do
    let epoch ← takeEpoch
    let lane ← takeU8
    if lane ≠ laneCombat then throw .wrongDirection
    else do
      let seq ← takeSeq
      let observedTick ← takeU64
      let actor ← takeNetId
      let body ← takeIntentBody takeUlid
      pure ⟨epoch, lane, seq, observedTick, actor, body⟩

def decodeIntentOf (version : ℕ) (takeUlid : WireReader Ulid) (bytes : List UInt8) :
    Except CodecError IntentFrame :=
  if maxIntentFrameBytes < bytes.length then .error .frameTooLarge
  else readAll (takeIntent version takeUlid) .malformed bytes

def decodeIntent (bytes : List UInt8) : Except CodecError IntentFrame :=
  decodeIntentOf protocolVersion takeAbility bytes

def putIntentBody : IntentBody → List UInt8
  | .declareAction ability target =>
    putByte intentTagDeclareAction ++ (putText (ulidText ability) ++ putInt 64 target)
  | .endTurn => putByte intentTagEndTurn

theorem extendIntentBody_eq (body : IntentBody) :
    extendIntentBody body = .ok (putIntentBody body) := by
  cases body with
  | declareAction ability target =>
    rw [extendIntentBody, length_textBytes_ulidText, if_neg (by decide), List.append_assoc,
      putIntentBody]
  | endTurn => rfl

def putIntent (version : ℕ) (frame : IntentFrame) : List UInt8 :=
  putByte version ++ (frame.epoch.toList ++ (putByte frame.lane ++ (putInt 64 frame.seq ++
    (putInt 64 frame.observedTick ++ (putInt 64 frame.actor ++ putIntentBody frame.body)))))

theorem length_putIntent_le (version : ℕ) (frame : IntentFrame) :
    (putIntent version frame).length ≤ 86 := by
  have hbody : (putIntentBody frame.body).length ≤ 38 := by
    cases frame.body with
    | declareAction ability target =>
      have htarget : (putInt 64 target).length ≤ 10 := length_putInt_le 64 target
      simp only [putIntentBody, putByte, length_append, length_singleton, length_putText_ulidText]
      omega
    | endTurn => exact (by decide : 1 ≤ 38)
  have hseq : (putInt 64 frame.seq).length ≤ 10 := length_putInt_le 64 _
  have htick : (putInt 64 frame.observedTick).length ≤ 10 := length_putInt_le 64 _
  have hactor : (putInt 64 frame.actor).length ≤ 10 := length_putInt_le 64 _
  simp only [putIntent, putByte, length_append, length_singleton, Vector.length_toList]
  omega

def IntentFrame.Encodable (frame : IntentFrame) : Prop :=
  frame.lane = laneCombat ∧ ¬seqOutOfRange frame.seq

/-- An encoder of intents makes its two checks and then writes the frame. -/
theorem encodeIntentOf_eq (version : ℕ) (frame : IntentFrame) : encodeIntentOf version frame =
      if frame.lane ≠ laneCombat then .error .wrongDirection
      else if seqOutOfRange frame.seq then .error .malformed
      else .ok (putIntent version frame) := by
  unfold encodeIntentOf checkSeq
  split_ifs with hlane hseq
  · rfl
  · rfl
  · rw [extendIntentBody_eq]
    have hshort : ¬ maxIntentFrameBytes < (putIntent version frame).length :=
      not_lt.mpr ((length_putIntent_le _ frame).trans (by decide))
    show capped _ _ = _
    unfold capped
    simp only [List.append_assoc]
    exact if_neg hshort

theorem encodeIntentOf_eq_ok_iff {version : ℕ} {frame : IntentFrame} {bytes : List UInt8} :
    encodeIntentOf version frame = .ok bytes ↔
      frame.Encodable ∧ bytes = putIntent version frame := by
  rw [encodeIntentOf_eq, IntentFrame.Encodable]
  split_ifs with hlane hseq
  · simp [hlane]
  · simp [hseq]
  · simp [not_not.mp hlane, hseq, eq_comm]

section Intents

variable {takeUlid : WireReader Ulid}
  (hulid : Codes (fun id bytes ↦ bytes = putText (ulidText id)) takeUlid)

include hulid

theorem codes_intentBody : Codes (fun body bytes ↦ body.Fits ∧ bytes = putIntentBody body)
      (takeIntentBody takeUlid) := by
  refine codes_tagged (fun body hempty ↦ ?_) fun tag htag ↦ ?_
  · cases body <;> exact absurd hempty.2 (cons_ne_nil _ _).symm
  · split
    · refine (hulid.bind fun ability _ ↦ codes_netId.bind fun target _ ↦
        Codes.pure _).congr fun body bytes ↦ ⟨?_, ?_⟩
      · rintro ⟨ability, front, back, rfl, ⟨target, middle, rest, ⟨htarget, rfl⟩, ⟨rfl, rfl⟩,
          rfl⟩, rfl⟩
        rw [append_nil]
        exact ⟨htarget, rfl⟩
      · rintro ⟨hfits, hbytes⟩
        cases body with
        | declareAction ability target =>
          exact ⟨ability, _, _, rfl, ⟨target, _, [], ⟨hfits, rfl⟩, ⟨rfl, rfl⟩, rfl⟩, by
            rw [append_nil]
            exact (putByte_append_inj htag htag hbytes).2⟩
        | endTurn =>
          exact absurd (@putByte_append_inj _ _ htag (by decide) bytes [] hbytes).1 (by decide)
    · refine (Codes.pure _).congr fun body bytes ↦ ⟨?_, ?_⟩
      · rintro ⟨rfl, rfl⟩
        exact ⟨trivial, rfl⟩
      · rintro ⟨-, hbytes⟩
        cases body with
        | declareAction ability target =>
          exact absurd (putByte_append_inj htag (by decide) hbytes).1 (by decide)
        | endTurn => exact ⟨rfl, (@putByte_append_inj _ _ htag htag bytes [] hbytes).2⟩
    · next hdeclare hend =>
      refine (Codes.throw _).congr fun body bytes ↦ ⟨fun hfalse ↦ hfalse.elim, ?_⟩
      rintro ⟨-, hbytes⟩
      cases body with
      | declareAction ability target =>
        exact hdeclare (putByte_append_inj htag (by decide) hbytes).1
      | endTurn => exact hend (@putByte_append_inj _ _ htag (by decide) bytes [] hbytes).1

theorem codes_intent {version : ℕ} (hversion : version < 256) :
    Codes (fun frame bytes ↦ frame.Fits ∧ encodeIntentOf version frame = .ok bytes)
      (takeIntent version takeUlid) := by
  refine (codes_u8.bind fun read _ ↦ (codes_epoch.bind fun epoch _ ↦ codes_u8.bind fun lane _ ↦
    (codes_seq.bind fun seq _ ↦ codes_u64.bind fun tick _ ↦ codes_netId.bind fun actor _ ↦
      (codes_intentBody hulid).bind fun body _ ↦ Codes.pure _).guard .wrongDirection
        (lane ≠ laneCombat)).guard .unsupportedVersion (read ≠ version)).congr
    fun frame bytes ↦ ⟨?_, ?_⟩
  · rintro ⟨read, -, -, ⟨-, rfl⟩, ⟨hread, epoch, -, -, rfl, ⟨lane, -, -, ⟨hlane, rfl⟩,
      ⟨hcombat, seq, -, -, ⟨hseq, rfl⟩, ⟨tick, -, -, ⟨htick, rfl⟩, ⟨actor, -, -, ⟨hactor, rfl⟩,
      ⟨body, -, -, ⟨hbody, rfl⟩, ⟨rfl, rfl⟩, rfl⟩, rfl⟩, rfl⟩, rfl⟩, rfl⟩, rfl⟩, rfl⟩
    have hbound : seq < 2 ^ 64 := by
      unfold seqOutOfRange seqLast at hseq
      omega
    refine ⟨⟨hlane, hbound, htick, hactor, hbody⟩, encodeIntentOf_eq_ok_iff.mpr
      ⟨⟨not_not.mp hcombat, hseq⟩, ?_⟩⟩
    rw [not_not.mp hread, append_nil, putIntent]
  · rintro ⟨hfits, hencode⟩
    obtain ⟨⟨hlane, hseq⟩, rfl⟩ := encodeIntentOf_eq_ok_iff.mp hencode
    refine ⟨version, _, _, ⟨hversion, rfl⟩, ⟨not_not.mpr rfl, frame.epoch, _, _, rfl,
      ⟨frame.lane, _, _, ⟨hfits.lane, rfl⟩, ⟨not_not.mpr hlane, frame.seq, _, _, ⟨hseq, rfl⟩,
      ⟨frame.observedTick, _, _, ⟨hfits.observedTick, rfl⟩, ⟨frame.actor, _, _,
      ⟨hfits.actor, rfl⟩, ⟨frame.body, _, _, ⟨hfits.body, rfl⟩, ⟨rfl, rfl⟩, rfl⟩, rfl⟩, rfl⟩,
      rfl⟩, rfl⟩, rfl⟩, ?_⟩
    rw [append_nil, putIntent]

end Intents

/-! ### Receipts -/

namespace RejectionCode

/-- The frozen value of a code. -/
def asU8 : RejectionCode → ℕ
  | frameTooLarge => 1
  | queueFull => 2
  | unsupportedVersion => 3
  | wrongDirection => 4
  | unknownMessage => 5
  | malformed => 6
  | limitExceeded => 7
  | rateLimited => 8
  | unauthenticated => 9
  | sessionExpired => 10
  | seqConflict => 11
  | seqGap => 12
  | staleSeq => 13
  | seqExhausted => 14
  | staleTick => 15
  | futureTick => 16
  | notAuthorized => 17
  | illegalAction => 18
  | serverBusy => 19
  | snapshotExpired => 20

def fromU8 : ℕ → Option RejectionCode
  | 1 => some frameTooLarge
  | 2 => some queueFull
  | 3 => some unsupportedVersion
  | 4 => some wrongDirection
  | 5 => some unknownMessage
  | 6 => some malformed
  | 7 => some limitExceeded
  | 8 => some rateLimited
  | 9 => some unauthenticated
  | 10 => some sessionExpired
  | 11 => some seqConflict
  | 12 => some seqGap
  | 13 => some staleSeq
  | 14 => some seqExhausted
  | 15 => some staleTick
  | 16 => some futureTick
  | 17 => some notAuthorized
  | 18 => some illegalAction
  | 19 => some serverBusy
  | 20 => some snapshotExpired
  | _ => none

theorem fromU8_eq_some_iff {raw : ℕ} {code : RejectionCode} :
    fromU8 raw = some code ↔ raw = code.asU8 := by
  constructor
  · intro hsome
    unfold fromU8 at hsome
    split at hsome <;> cases hsome <;> rfl
  · rintro rfl
    cases code <;> rfl

theorem asU8_lt (code : RejectionCode) : code.asU8 < 256 := by
  cases code <;> decide

end RejectionCode

@[match_pattern] abbrev receiptTagApplied : ℕ := 0
@[match_pattern] abbrev receiptTagRejected : ℕ := 1

/-- `extend_status`. -/
def putStatus : ReceiptStatus → List UInt8
  | .applied => putByte receiptTagApplied
  | .rejected code => putByte receiptTagRejected ++ putByte code.asU8

def takeStatus : WireReader ReceiptStatus := do
  let tag ← takeU8
  match tag with
  | receiptTagApplied => pure .applied
  | receiptTagRejected => do
    let raw ← takeU8
    let code ← okOr .unknownMessage (RejectionCode.fromU8 raw)
    pure (.rejected code)
  | _ => throw .unknownMessage

theorem codes_status : Codes (fun status bytes ↦ bytes = putStatus status) takeStatus := by
  refine codes_tagged (fun status hempty ↦ ?_) fun tag htag ↦ ?_
  · cases status <;> exact absurd hempty (cons_ne_nil _ _).symm
  · split
    · refine (Codes.pure _).congr fun status bytes ↦ ⟨?_, fun hbytes ↦ ?_⟩
      · rintro ⟨rfl, rfl⟩
        rfl
      · cases status with
        | applied => exact ⟨rfl, (@putByte_append_inj _ _ htag htag bytes [] hbytes).2⟩
        | rejected code =>
          exact absurd (putByte_append_inj htag (by decide) hbytes).1 (by decide)
    · refine (codes_u8.bind fun raw _ ↦ (Codes.okOr _ (RejectionCode.fromU8 raw)).bind
        fun code _ ↦ Codes.pure _).congr fun status bytes ↦ ⟨?_, fun hbytes ↦ ?_⟩
      · rintro ⟨raw, -, -, ⟨-, rfl⟩, ⟨code, -, -, ⟨hcode, rfl⟩, ⟨rfl, rfl⟩, rfl⟩, rfl⟩
        rw [RejectionCode.fromU8_eq_some_iff.mp hcode]
        rfl
      · cases status with
        | applied =>
          exact absurd (@putByte_append_inj _ _ htag (by decide) bytes [] hbytes).1 (by decide)
        | rejected code =>
          exact ⟨code.asU8, _, [], ⟨code.asU8_lt, rfl⟩, ⟨code, [], [],
            ⟨RejectionCode.fromU8_eq_some_iff.mpr rfl, rfl⟩, ⟨rfl, rfl⟩, rfl⟩, by
            rw [append_nil]
            exact (putByte_append_inj htag htag hbytes).2⟩
    · next happlied hrejected =>
      refine (Codes.throw _).congr fun status bytes ↦ ⟨fun hfalse ↦ hfalse.elim, fun hbytes ↦ ?_⟩
      cases status with
      | applied => exact happlied (@putByte_append_inj _ _ htag (by decide) bytes [] hbytes).1
      | rejected code => exact hrejected (putByte_append_inj htag (by decide) hbytes).1

/-! ### Operations -/

@[match_pattern] abbrev deltaTagEntityEnter : ℕ := 0
@[match_pattern] abbrev deltaTagEntityLeave : ℕ := 1
@[match_pattern] abbrev deltaTagSpawned : ℕ := 2
@[match_pattern] abbrev deltaTagDespawned : ℕ := 3
@[match_pattern] abbrev deltaTagDied : ℕ := 4
@[match_pattern] abbrev deltaTagHealth : ℕ := 5
@[match_pattern] abbrev deltaTagTurn : ℕ := 6
@[match_pattern] abbrev deltaTagReceipt : ℕ := 7

/-- The bytes of a value that may be missing, given those of the value. -/
def putOption {α : Type} (put : α → List UInt8) : Option α → List UInt8
  | none => putBool false
  | some value => putBool true ++ put value

/-- Reads a value that may be missing. -/
def takeOption {α : Type} (read : WireReader α) : WireReader (Option α) := do
  let present ← takeFlag
  if present then do
    let value ← read
    pure (some value)
  else pure none

/-- The bytes of an actor that may be missing. -/
def putActive (active : Option NetId) : List UInt8 :=
  putOption (fun entity : NetId ↦ putInt 64 entity) active

/-- Reads an actor that may be missing. -/
def takeActive : WireReader (Option NetId) := takeOption takeNetId

def extendOp : DeltaOp → Except CodecError (List UInt8)
  | .entityEnter entity => .ok (putByte deltaTagEntityEnter ++ putInt 64 entity)
  | .entityLeave entity => .ok (putByte deltaTagEntityLeave ++ putInt 64 entity)
  | .spawned entity => .ok (putByte deltaTagSpawned ++ putInt 64 entity)
  | .despawned entity => .ok (putByte deltaTagDespawned ++ putInt 64 entity)
  | .died entity => .ok (putByte deltaTagDied ++ putInt 64 entity)
  | .health entity current most dead => .ok (putByte deltaTagHealth ++ (putInt 64 entity ++
      (putInt 32 current ++ (putInt 32 most ++ putBool dead))))
  | .turn active round => .ok (putByte deltaTagTurn ++ (putActive active ++ putInt 64 round))
  | .receipt epoch lane seq processedTick status =>
    if lane ≠ laneCombat then .error .wrongDirection
    else do
      checkSeq seq
      .ok (putByte deltaTagReceipt ++ (epoch.toList ++ (putByte lane ++ (putInt 64 seq ++
        (putInt 64 processedTick ++ putStatus status)))))

def takeOpAfter : ℕ → WireReader DeltaOp
  | deltaTagEntityEnter => do pure (.entityEnter (← takeNetId))
  | deltaTagEntityLeave => do pure (.entityLeave (← takeNetId))
  | deltaTagSpawned => do pure (.spawned (← takeNetId))
  | deltaTagDespawned => do pure (.despawned (← takeNetId))
  | deltaTagDied => do pure (.died (← takeNetId))
  | deltaTagHealth => do
    let entity ← takeNetId
    let current ← takeU32
    let most ← takeU32
    let dead ← takeFlag
    pure (.health entity current most dead)
  | deltaTagTurn => do
    let active ← takeActive
    let round ← takeU64
    pure (.turn active round)
  | deltaTagReceipt => do
    let epoch ← takeEpoch
    let lane ← takeU8
    if lane ≠ laneCombat then throw .wrongDirection
    else do
      let seq ← takeSeq
      let processedTick ← takeU64
      let status ← takeStatus
      pure (.receipt epoch lane seq processedTick status)
  | _ => throw .unknownMessage

def takeOp : WireReader DeltaOp := do
  let tag ← takeU8
  takeOpAfter tag

def DeltaOp.tag : DeltaOp → ℕ
  | .entityEnter _ => deltaTagEntityEnter
  | .entityLeave _ => deltaTagEntityLeave
  | .spawned _ => deltaTagSpawned
  | .despawned _ => deltaTagDespawned
  | .died _ => deltaTagDied
  | .health .. => deltaTagHealth
  | .turn .. => deltaTagTurn
  | .receipt .. => deltaTagReceipt

def putOpFields : DeltaOp → List UInt8
  | .entityEnter entity | .entityLeave entity | .spawned entity | .despawned entity
  | .died entity => putInt 64 entity
  | .health entity current most dead =>
    putInt 64 entity ++ (putInt 32 current ++ (putInt 32 most ++ putBool dead))
  | .turn active round => putActive active ++ putInt 64 round
  | .receipt epoch lane seq processedTick status =>
    epoch.toList ++ (putByte lane ++ (putInt 64 seq ++ (putInt 64 processedTick ++
      putStatus status)))

/-- An operation the encoder takes. -/
def DeltaOp.Encodable : DeltaOp → Prop
  | .receipt _ lane seq _ _ => lane = laneCombat ∧ ¬seqOutOfRange seq
  | _ => True

theorem extendOp_receipt (epoch : SessionEpoch) (lane seq processedTick : ℕ)
    (status : ReceiptStatus) : extendOp (.receipt epoch lane seq processedTick status) =
      if lane ≠ laneCombat then .error .wrongDirection
      else if seqOutOfRange seq then .error .malformed else .ok (putByte deltaTagReceipt ++
        putOpFields (.receipt epoch lane seq processedTick status)) := by
  rw [extendOp, checkSeq]
  split_ifs <;> rfl

theorem extendOp_eq_ok_iff {op : DeltaOp} {bytes : List UInt8} :
    extendOp op = .ok bytes ↔ op.Encodable ∧ bytes = putByte op.tag ++ putOpFields op := by
  have hplain {built : List UInt8} : (Except.ok built : Except CodecError _) = .ok bytes ↔
      True ∧ bytes = built := by
    rw [Except.ok.injEq, true_and]
    exact eq_comm
  cases op with
  | receipt epoch lane seq processedTick status =>
    rw [extendOp_receipt, DeltaOp.Encodable]
    split_ifs with hlane hseq
    · simp [hlane]
    · simp [hseq]
    · simp only [not_not.mp hlane, hseq, not_false_eq_true, true_and, Except.ok.injEq]
      exact eq_comm
  | _ => exact hplain

theorem extendOp_ne_frameTooLarge (op : DeltaOp) : extendOp op ≠ .error .frameTooLarge := by
  cases op with
  | receipt epoch lane seq processedTick status =>
    rw [extendOp_receipt]
    split_ifs
    · exact nofun
    · exact nofun
    · exact nofun
  | _ => exact nofun

theorem length_putOpFields_le (op : DeltaOp) : (putOpFields op).length ≤ 39 := by
  have hint (value : ℕ) : (putInt 64 value).length ≤ 10 := length_putInt_le 64 value
  have hsmall (value : ℕ) : (putInt 32 value).length ≤ 5 := length_putInt_le 32 value
  cases op with
  | health entity current most dead =>
    have hentity := hint entity
    have hcurrent := hsmall current
    have hmost := hsmall most
    simp only [putOpFields, putBool, length_append, length_singleton]
    omega
  | turn active round =>
    have hround := hint round
    have hactive : (putActive active).length ≤ 11 := by
      cases active with
      | none => exact (by decide : 1 ≤ 11)
      | some entity =>
        have hentity := hint entity
        simp only [putActive, putOption, putBool, length_append, length_singleton]
        omega
    simp only [putOpFields, length_append]
    omega
  | receipt epoch lane seq processedTick status =>
    have hseq := hint seq
    have htick := hint processedTick
    have hstatus : (putStatus status).length ≤ 2 := by
      cases status with
      | applied => exact (by decide : 1 ≤ 2)
      | rejected code => exact le_rfl
    simp only [putOpFields, putByte, length_append, length_singleton, Vector.length_toList]
    omega
  | _ entity => exact (hint entity).trans (by decide)

def CanonicalOp (tag : ℕ) (op : DeltaOp) (bytes : List UInt8) : Prop :=
  op.tag = tag ∧ op.Fits ∧ op.Encodable ∧ bytes = putOpFields op

theorem codes_entityOp {build : NetId → DeltaOp} {tag : ℕ}
    (hbuild : ∀ op : DeltaOp, op.tag = tag → ∃ entity, op = build entity)
    (hcanonical : ∀ entity bytes, CanonicalOp tag (build entity) bytes ↔
      (entity : ℕ) < 2 ^ 64 ∧ bytes = putInt 64 entity) :
    Codes (CanonicalOp tag) (takeNetId >>= fun entity ↦ pure (build entity)) := by
  refine (codes_netId.bind fun entity _ ↦ Codes.pure _).congr fun op bytes ↦ ⟨?_, fun hop ↦ ?_⟩
  · rintro ⟨entity, -, -, ⟨hentity, rfl⟩, ⟨rfl, rfl⟩, rfl⟩
    rw [append_nil]
    exact (hcanonical entity _).mpr ⟨hentity, rfl⟩
  · obtain ⟨entity, rfl⟩ := hbuild op hop.1
    obtain ⟨hentity, rfl⟩ := (hcanonical entity bytes).mp hop
    exact ⟨entity, _, [], ⟨hentity, rfl⟩, ⟨rfl, rfl⟩, (append_nil _).symm⟩

theorem codes_option {α : Type} {fits : α → Prop} {put : α → List UInt8} {read : WireReader α}
    (hcodes : Codes (fun value bytes ↦ fits value ∧ bytes = put value) read) :
    Codes (fun option bytes ↦ (∀ value ∈ option, fits value) ∧ bytes = putOption put option)
      (takeOption read) := by
  have hbranch (present : Bool) : Codes (fun option bytes ↦ option.isSome = present ∧
      (∀ value ∈ option, fits value) ∧ putOption put option = putBool present ++ bytes)
      (if present then read >>= fun value ↦ pure (some value) else pure none :
        WireReader (Option α)) := by
    cases present with
    | false =>
      refine (Codes.pure _).congr fun option bytes ↦ ⟨?_, ?_⟩
      · rintro ⟨rfl, rfl⟩
        exact ⟨rfl, fun _ hmem ↦ absurd hmem (Option.not_mem_none _), rfl⟩
      · rintro ⟨hnone, -, hbytes⟩
        cases option with
        | none =>
          exact ⟨rfl, (List.append_cancel_left ((append_nil _).trans hbytes)).symm⟩
        | some value => exact nomatch hnone
    | true =>
      refine (hcodes.bind fun value _ ↦ Codes.pure _).congr fun option bytes ↦ ⟨?_, ?_⟩
      · rintro ⟨value, -, -, ⟨hvalue, rfl⟩, ⟨rfl, rfl⟩, rfl⟩
        rw [append_nil]
        exact ⟨rfl, fun other hmem ↦ Option.mem_some_iff.mp hmem ▸ hvalue, rfl⟩
      · rintro ⟨hsome, hvalue, hbytes⟩
        cases option with
        | none => exact nomatch hsome
        | some value =>
          exact ⟨value, _, [], ⟨hvalue value rfl, rfl⟩, ⟨rfl, rfl⟩, by
            rw [append_nil]
            exact (List.append_cancel_left hbytes).symm⟩
  refine (codes_flag.bind fun present _ ↦ hbranch present).congr fun option bytes ↦ ⟨?_, ?_⟩
  · rintro ⟨present, -, back, rfl, ⟨-, hvalue, hput⟩, rfl⟩
    exact ⟨hvalue, hput.symm⟩
  · rintro ⟨hvalue, rfl⟩
    cases option with
    | none => exact ⟨false, _, [], rfl, ⟨rfl, hvalue, rfl⟩, rfl⟩
    | some value => exact ⟨true, _, put value, rfl, ⟨rfl, hvalue, rfl⟩, rfl⟩

theorem codes_active : Codes (fun (active : Option NetId) bytes ↦
    (∀ entity ∈ active, (entity : ℕ) < 2 ^ 64) ∧ bytes = putActive active) takeActive :=
  codes_option codes_netId

theorem codes_healthOp : Codes (CanonicalOp deltaTagHealth) (takeOpAfter deltaTagHealth) := by
  refine (codes_netId.bind fun entity _ ↦ codes_u32.bind fun current _ ↦ codes_u32.bind
    fun most _ ↦ codes_flag.bind fun dead _ ↦ Codes.pure _).congr fun op bytes ↦ ⟨?_, ?_⟩
  · rintro ⟨entity, -, -, ⟨hentity, rfl⟩, ⟨current, -, -, ⟨hcurrent, rfl⟩, ⟨most, -, -,
      ⟨hmost, rfl⟩, ⟨dead, -, -, rfl, ⟨rfl, rfl⟩, rfl⟩, rfl⟩, rfl⟩, rfl⟩
    rw [append_nil]
    exact ⟨rfl, ⟨hentity, hcurrent, hmost⟩, trivial, rfl⟩
  · rintro ⟨htag, hfits, -, rfl⟩
    cases op with
    | health entity current most dead =>
      refine ⟨entity, _, _, ⟨hfits.1, rfl⟩, ⟨current, _, _, ⟨hfits.2.1, rfl⟩, ⟨most, _, _,
        ⟨hfits.2.2, rfl⟩, ⟨dead, _, [], rfl, ⟨rfl, rfl⟩, rfl⟩, rfl⟩, rfl⟩, ?_⟩
      rw [append_nil, putOpFields]
    | _ => exact nomatch htag

theorem codes_turnOp : Codes (CanonicalOp deltaTagTurn) (takeOpAfter deltaTagTurn) := by
  refine (codes_active.bind fun active _ ↦ codes_u64.bind fun round _ ↦ Codes.pure _).congr
    fun op bytes ↦ ⟨?_, ?_⟩
  · rintro ⟨active, -, -, ⟨hactive, rfl⟩, ⟨round, -, -, ⟨hround, rfl⟩, ⟨rfl, rfl⟩, rfl⟩, rfl⟩
    rw [append_nil]
    exact ⟨rfl, ⟨hactive, hround⟩, trivial, rfl⟩
  · rintro ⟨htag, hfits, -, rfl⟩
    cases op with
    | turn active round =>
      refine ⟨active, _, _, ⟨hfits.1, rfl⟩, ⟨round, _, [], ⟨hfits.2, rfl⟩, ⟨rfl, rfl⟩, rfl⟩, ?_⟩
      rw [append_nil, putOpFields]
    | _ => exact nomatch htag

theorem codes_receiptOp : Codes (CanonicalOp deltaTagReceipt) (takeOpAfter deltaTagReceipt) := by
  refine (codes_epoch.bind fun epoch _ ↦ codes_u8.bind fun lane _ ↦
    (codes_seq.bind fun seq _ ↦ codes_u64.bind fun tick _ ↦ codes_status.bind fun status _ ↦
      Codes.pure _).guard .wrongDirection (lane ≠ laneCombat)).congr fun op bytes ↦ ⟨?_, ?_⟩
  · rintro ⟨epoch, -, -, rfl, ⟨lane, -, -, ⟨hlane, rfl⟩, ⟨hcombat, seq, -, -, ⟨hseq, rfl⟩,
      ⟨tick, -, -, ⟨htick, rfl⟩, ⟨status, -, -, rfl, ⟨rfl, rfl⟩, rfl⟩, rfl⟩, rfl⟩, rfl⟩, rfl⟩
    have hbound : seq < 2 ^ 64 := by
      unfold seqOutOfRange seqLast at hseq
      omega
    rw [append_nil]
    exact ⟨rfl, ⟨hlane, hbound, htick⟩, ⟨not_not.mp hcombat, hseq⟩, rfl⟩
  · rintro ⟨htag, hfits, hencodable, rfl⟩
    cases op with
    | receipt epoch lane seq tick status =>
      refine ⟨epoch, _, _, rfl, ⟨lane, _, _, ⟨hfits.1, rfl⟩, ⟨not_not.mpr hencodable.1, seq, _, _,
        ⟨hencodable.2, rfl⟩, ⟨tick, _, _, ⟨hfits.2.2, rfl⟩, ⟨status, _, [], rfl, ⟨rfl, rfl⟩, rfl⟩,
        rfl⟩, rfl⟩, rfl⟩, ?_⟩
      rw [append_nil, putOpFields]
    | _ => exact nomatch htag

theorem codes_opAfter (tag : ℕ) : Codes (CanonicalOp tag) (takeOpAfter tag) := by
  have hentity {build : NetId → DeltaOp} {entityTag : ℕ}
      (hbuild : ∀ op : DeltaOp, op.tag = entityTag → ∃ entity, op = build entity)
      (hparts : ∀ entity, (build entity).tag = entityTag ∧
        ((build entity).Fits ↔ (entity : ℕ) < 2 ^ 64) ∧ (build entity).Encodable ∧
        putOpFields (build entity) = putInt 64 entity) :
      Codes (CanonicalOp entityTag) (takeNetId >>= fun entity ↦ pure (build entity)) := by
    refine codes_entityOp hbuild fun entity bytes ↦ ?_
    obtain ⟨htag, hfits, hencodable, hput⟩ := hparts entity
    rw [CanonicalOp, hput]
    simp only [htag, hfits, hencodable, true_and]
  unfold takeOpAfter
  split
  · exact hentity (fun op htag ↦ by cases op with
      | entityEnter entity => exact ⟨entity, rfl⟩
      | _ => exact nomatch htag) fun _ ↦ ⟨rfl, Iff.rfl, trivial, rfl⟩
  · exact hentity (fun op htag ↦ by cases op with
      | entityLeave entity => exact ⟨entity, rfl⟩
      | _ => exact nomatch htag) fun _ ↦ ⟨rfl, Iff.rfl, trivial, rfl⟩
  · exact hentity (fun op htag ↦ by cases op with
      | spawned entity => exact ⟨entity, rfl⟩
      | _ => exact nomatch htag) fun _ ↦ ⟨rfl, Iff.rfl, trivial, rfl⟩
  · exact hentity (fun op htag ↦ by cases op with
      | despawned entity => exact ⟨entity, rfl⟩
      | _ => exact nomatch htag) fun _ ↦ ⟨rfl, Iff.rfl, trivial, rfl⟩
  · exact hentity (fun op htag ↦ by cases op with
      | died entity => exact ⟨entity, rfl⟩
      | _ => exact nomatch htag) fun _ ↦ ⟨rfl, Iff.rfl, trivial, rfl⟩
  · exact codes_healthOp
  · exact codes_turnOp
  · exact codes_receiptOp
  · next henter hleave hspawned hdespawned hdied hhealth hturn hreceipt =>
    refine (Codes.throw _).congr fun op bytes ↦ ⟨fun hfalse ↦ hfalse.elim, fun hop ↦ ?_⟩
    cases op with
    | entityEnter => exact henter hop.1.symm
    | entityLeave => exact hleave hop.1.symm
    | spawned => exact hspawned hop.1.symm
    | despawned => exact hdespawned hop.1.symm
    | died => exact hdied hop.1.symm
    | health => exact hhealth hop.1.symm
    | turn => exact hturn hop.1.symm
    | receipt => exact hreceipt hop.1.symm

theorem DeltaOp.tag_lt (op : DeltaOp) : op.tag < 256 := by
  cases op <;> exact Nat.le_of_ble_eq_true rfl

theorem codes_op : Codes (fun op bytes ↦ op.Fits ∧ extendOp op = .ok bytes) takeOp := by
  refine codes_tagged (fun op hempty ↦ ?_) fun tag htag ↦ (codes_opAfter tag).congr
    fun op bytes ↦ ⟨?_, ?_⟩
  · exact absurd (extendOp_eq_ok_iff.mp hempty.2).2 (cons_ne_nil _ _).symm
  · rintro ⟨rfl, hfits, hencodable, rfl⟩
    exact ⟨hfits, extendOp_eq_ok_iff.mpr ⟨hencodable, rfl⟩⟩
  · rintro ⟨hfits, hextend⟩
    obtain ⟨hencodable, hbytes⟩ := extendOp_eq_ok_iff.mp hextend
    obtain ⟨rfl, rfl⟩ := putByte_append_inj htag op.tag_lt hbytes
    exact ⟨rfl, hfits, hencodable, rfl⟩

/-! ### Delta frames -/

/-- The fields of a delta frame of either version. -/
structure DeltaFields (α : Type) where
  lane : ℕ
  serverTick : ℕ
  eventSeq : ℕ
  ops : List α
deriving DecidableEq

section Deltas

variable {α : Type}

/-- The loop of an encoder over its operations. -/
def extendOps (extend : α → Except CodecError (List UInt8)) :
    List α → Except CodecError (List UInt8)
  | [] => .ok []
  | op :: rest => do
    let front ← extend op
    let back ← extendOps extend rest
    .ok (front ++ back)

def encodeDeltaOf (version : ℕ) (extend : α → Except CodecError (List UInt8))
    (frame : DeltaFields α) : Except CodecError (List UInt8) :=
  if frame.lane ≠ laneCombat then .error .wrongDirection
  else if maxDeltaOps < frame.ops.length then .error .limitExceeded
  else do
    let ops ← extendOps extend frame.ops
    capped maxDeltaFrameBytes (putByte version ++ (putByte frame.lane ++
      (putInt 64 frame.serverTick ++ (putInt 64 frame.eventSeq ++
        (putInt 64 frame.ops.length ++ ops)))))

/-- The fields of a delta of a version, as `decode_delta` reads them. -/
def takeDelta (expected : ℕ) (takeOp : WireReader α) : WireReader (DeltaFields α) := do
  let version ← takeU8
  if version ≠ expected then throw .unsupportedVersion
  else do
    let lane ← takeU8
    if lane ≠ laneCombat then throw .wrongDirection
    else do
      let serverTick ← takeU64
      let eventSeq ← takeU64
      let count ← takeU64
      if maxDeltaOps < count then throw .limitExceeded
      else do
        let ops ← readMany takeOp count
        pure ⟨lane, serverTick, eventSeq, ops⟩

def decodeDeltaOf (version : ℕ) (takeOp : WireReader α) (bytes : List UInt8) :
    Except CodecError (DeltaFields α) :=
  if maxDeltaFrameBytes < bytes.length then .error .frameTooLarge
  else readAll (takeDelta version takeOp) .malformed bytes

structure DeltaFields.Fits (fits : α → Prop) (frame : DeltaFields α) : Prop where
  lane : frame.lane < 256
  serverTick : frame.serverTick < 2 ^ 64
  eventSeq : frame.eventSeq < 2 ^ 64
  ops : ∀ op ∈ frame.ops, fits op

/-- A delta frame an encoder takes: on the combat lane, with a bounded number of operations that are
each taken. -/
structure DeltaFields.Encodable (encodable : α → Prop) (frame : DeltaFields α) : Prop where
  lane : frame.lane = laneCombat
  count : frame.ops.length ≤ maxDeltaOps
  ops : ∀ op ∈ frame.ops, encodable op

def putDelta (version : ℕ) (put : α → List UInt8) (frame : DeltaFields α) : List UInt8 :=
  putByte version ++ (putByte frame.lane ++ (putInt 64 frame.serverTick ++
    (putInt 64 frame.eventSeq ++ (putInt 64 frame.ops.length ++ frame.ops.flatMap put))))

/-- What the delta codec needs of the codec of the operations: which operations are taken, their
bytes, which are short, and that no operation is refused as too large. -/
structure OpCodec (fits encodable : α → Prop) (put : α → List UInt8)
    (extend : α → Except CodecError (List UInt8)) (takeOp : WireReader α) : Prop where
  extend_iff : ∀ op bytes, extend op = .ok bytes ↔ encodable op ∧ bytes = put op
  short : ∀ op, encodable op → (put op).length ≤ 80
  extend_ne : ∀ op, extend op ≠ .error .frameTooLarge
  codes : Codes (fun op bytes ↦ fits op ∧ extend op = .ok bytes) takeOp

variable {fits encodable : α → Prop} {put : α → List UInt8}
  {extend : α → Except CodecError (List UInt8)} {takeOp : WireReader α}

section

variable (hcodec : OpCodec fits encodable put extend takeOp)
include hcodec

theorem OpCodec.extendOps_iff (ops : List α) (bytes : List UInt8) :
    extendOps extend ops = .ok bytes ↔ (∀ op ∈ ops, encodable op) ∧ bytes = ops.flatMap put := by
  induction ops generalizing bytes with
  | nil =>
    simp only [extendOps, Except.ok.injEq, not_mem_nil, false_implies, implies_true, true_and,
      List.flatMap_nil]
    exact eq_comm
  | cons op rest ih =>
    rw [extendOps, except_bind_eq_ok_iff, forall_mem_cons, flatMap_cons]
    constructor
    · rintro ⟨front, hfront, hrest⟩
      obtain ⟨back, hback, heq⟩ := except_bind_eq_ok_iff.mp hrest
      obtain ⟨hop, rfl⟩ := (hcodec.extend_iff op front).mp hfront
      obtain ⟨hops, rfl⟩ := (ih back).mp hback
      cases heq
      exact ⟨⟨hop, hops⟩, rfl⟩
    · rintro ⟨⟨hop, hops⟩, rfl⟩
      exact ⟨put op, (hcodec.extend_iff op _).mpr ⟨hop, rfl⟩, except_bind_eq_ok_iff.mpr
        ⟨rest.flatMap put, (ih _).mpr ⟨hops, rfl⟩, rfl⟩⟩

theorem OpCodec.extendOps_ne (ops : List α) : extendOps extend ops ≠ .error .frameTooLarge := by
  induction ops with
  | nil => exact nofun
  | cons op rest ih =>
    rw [extendOps]
    refine except_bind_ne_error (hcodec.extend_ne op) fun front _ ↦ ?_
    exact except_bind_ne_error ih fun back _ ↦ nofun

theorem OpCodec.length_flatMap_le {ops : List α} (hops : ∀ op ∈ ops, encodable op) :
    (ops.flatMap put).length ≤ 80 * ops.length := by
  induction ops with
  | nil => exact le_rfl
  | cons op rest ih =>
    obtain ⟨hop, hrest⟩ := forall_mem_cons.mp hops
    have hfront := hcodec.short op hop
    have hback := ih hrest
    rw [flatMap_cons, length_append, List.length_cons]
    omega

/-- A frame an encoder takes is within the cap. -/
theorem OpCodec.length_putDelta_le {frame : DeltaFields α} (hframe : frame.Encodable encodable)
    (version : ℕ) : (putDelta version put frame).length ≤ maxDeltaFrameBytes := by
  have hops := hcodec.length_flatMap_le hframe.ops
  have hcount := hframe.count
  have htick : (putInt 64 frame.serverTick).length ≤ 10 := length_putInt_le 64 _
  have hseq : (putInt 64 frame.eventSeq).length ≤ 10 := length_putInt_le 64 _
  have hlength : (putInt 64 frame.ops.length).length ≤ 10 := length_putInt_le 64 _
  simp only [putDelta, putByte, length_append, length_singleton]
  unfold maxDeltaFrameBytes
  unfold maxDeltaOps at hcount
  omega

theorem OpCodec.encodeDeltaOf_iff (version : ℕ) (frame : DeltaFields α) (bytes : List UInt8) :
    encodeDeltaOf version extend frame = .ok bytes ↔
      frame.Encodable encodable ∧ bytes = putDelta version put frame := by
  unfold encodeDeltaOf
  split_ifs with hlane hcount
  · exact ⟨False.elim, fun hframe ↦ hlane hframe.1.lane⟩
  · exact ⟨False.elim, fun hframe ↦ absurd hframe.1.count (not_le.mpr hcount)⟩
  · rw [except_bind_eq_ok_iff]
    constructor
    · rintro ⟨ops, hops, hcapped⟩
      obtain ⟨hencodable, rfl⟩ := (hcodec.extendOps_iff frame.ops ops).mp hops
      unfold capped at hcapped
      split_ifs at hcapped
      cases hcapped
      exact ⟨⟨not_not.mp hlane, not_lt.mp hcount, hencodable⟩, rfl⟩
    · rintro ⟨hframe, rfl⟩
      refine ⟨frame.ops.flatMap put, (hcodec.extendOps_iff _ _).mpr ⟨hframe.ops, rfl⟩, ?_⟩
      exact if_neg (not_lt.mpr (hcodec.length_putDelta_le hframe version))

theorem OpCodec.encodeDeltaOf_ne (version : ℕ) (frame : DeltaFields α) :
    encodeDeltaOf version extend frame ≠ .error .frameTooLarge := by
  unfold encodeDeltaOf
  split_ifs with hlane hcount
  · exact nofun
  · exact nofun
  · refine except_bind_ne_error (hcodec.extendOps_ne frame.ops) fun ops hops ↦ ?_
    obtain ⟨hencodable, rfl⟩ := (hcodec.extendOps_iff frame.ops ops).mp hops
    have hshort := hcodec.length_putDelta_le
      ⟨not_not.mp hlane, not_lt.mp hcount, hencodable⟩ version
    show capped _ (putDelta version put frame) ≠ _
    rw [capped, if_neg (not_lt.mpr hshort)]
    exact nofun

/-- The canonical operations of a frame are what its encoder writes. -/
theorem OpCodec.canonicalList_iff (ops : List α) (bytes : List UInt8) :
    CanonicalList (fun op bytes ↦ fits op ∧ extend op = .ok bytes) ops bytes ↔
      (∀ op ∈ ops, fits op) ∧ (∀ op ∈ ops, encodable op) ∧ bytes = ops.flatMap put := by
  induction ops generalizing bytes with
  | nil =>
    constructor
    · intro hlist
      cases hlist
      exact ⟨fun _ hmem ↦ absurd hmem not_mem_nil, fun _ hmem ↦ absurd hmem not_mem_nil,
        rfl⟩
    · rintro ⟨-, -, rfl⟩
      exact .nil
  | cons op rest ih =>
    rw [canonicalList_cons_iff, forall_mem_cons, forall_mem_cons, flatMap_cons]
    constructor
    · rintro ⟨front, back, ⟨hfits, hextend⟩, hrest, rfl⟩
      obtain ⟨hop, rfl⟩ := (hcodec.extend_iff op front).mp hextend
      obtain ⟨hfitsRest, hops, rfl⟩ := (ih back).mp hrest
      exact ⟨⟨hfits, hfitsRest⟩, ⟨hop, hops⟩, rfl⟩
    · rintro ⟨⟨hfits, hfitsRest⟩, ⟨hop, hops⟩, rfl⟩
      exact ⟨put op, rest.flatMap put, ⟨hfits, (hcodec.extend_iff op _).mpr ⟨hop, rfl⟩⟩,
        (ih _).mpr ⟨hfitsRest, hops, rfl⟩, rfl⟩

theorem OpCodec.codes_delta {version : ℕ} (hversion : version < 256) :
    Codes (fun frame bytes ↦ frame.Fits fits ∧ encodeDeltaOf version extend frame = .ok bytes)
      (takeDelta version takeOp) := by
  refine (codes_u8.bind fun read _ ↦ (codes_u8.bind fun lane _ ↦ (codes_u64.bind fun tick _ ↦
    codes_u64.bind fun seq _ ↦ codes_u64.bind fun count _ ↦ ((hcodec.codes.many count).bind
      fun ops _ ↦ Codes.pure _).guard .limitExceeded (maxDeltaOps < count)).guard .wrongDirection
        (lane ≠ laneCombat)).guard .unsupportedVersion (read ≠ version)).congr
    fun frame bytes ↦ ⟨?_, ?_⟩
  · rintro ⟨read, -, -, ⟨-, rfl⟩, ⟨hread, lane, -, -, ⟨hlane, rfl⟩, ⟨hcombat, tick, -, -,
      ⟨htick, rfl⟩, ⟨seq, -, -, ⟨hseq, rfl⟩, ⟨count, -, -, ⟨-, rfl⟩, ⟨hcount, ops, body, -,
      ⟨hlength, hops⟩, ⟨rfl, rfl⟩, rfl⟩, rfl⟩, rfl⟩, rfl⟩, rfl⟩, rfl⟩
    obtain ⟨hfits, hencodable, rfl⟩ := (hcodec.canonicalList_iff ops body).mp hops
    subst hlength
    refine ⟨⟨hlane, htick, hseq, hfits⟩, (hcodec.encodeDeltaOf_iff _ _ _).mpr
      ⟨⟨not_not.mp hcombat, not_lt.mp hcount, hencodable⟩, ?_⟩⟩
    rw [not_not.mp hread, append_nil, putDelta]
  · rintro ⟨hfits, hencode⟩
    obtain ⟨hframe, rfl⟩ := (hcodec.encodeDeltaOf_iff _ _ _).mp hencode
    have hcount : frame.ops.length < 2 ^ 64 := hframe.count.trans_lt (by decide)
    refine ⟨version, _, _, ⟨hversion, rfl⟩, ⟨not_not.mpr rfl, frame.lane, _, _, ⟨hfits.lane, rfl⟩,
      ⟨not_not.mpr hframe.lane, frame.serverTick, _, _, ⟨hfits.serverTick, rfl⟩,
      ⟨frame.eventSeq, _, _, ⟨hfits.eventSeq, rfl⟩, ⟨frame.ops.length, _, _, ⟨hcount, rfl⟩,
      ⟨not_lt.mpr hframe.count, frame.ops, frame.ops.flatMap put, [], ⟨rfl,
        (hcodec.canonicalList_iff _ _).mpr ⟨hfits.ops, hframe.ops, rfl⟩⟩, ⟨rfl, rfl⟩, rfl⟩,
      rfl⟩, rfl⟩, rfl⟩, rfl⟩, ?_⟩
    rw [append_nil, putDelta]

end

end Deltas

namespace DeltaFrame

def fields (frame : DeltaFrame) : DeltaFields DeltaOp :=
  ⟨frame.lane, frame.serverTick, frame.eventSeq, frame.ops⟩

def ofFields (fields : DeltaFields DeltaOp) : DeltaFrame :=
  ⟨fields.lane, fields.serverTick, fields.eventSeq, fields.ops⟩

end DeltaFrame

def encodeDelta (frame : DeltaFrame) : Except CodecError (List UInt8) :=
  encodeDeltaOf protocolVersion extendOp frame.fields

def decodeDelta (bytes : List UInt8) : Except CodecError DeltaFrame :=
  (decodeDeltaOf protocolVersion takeOp bytes).map DeltaFrame.ofFields

/-- The bytes of an operation. -/
def putOp (op : DeltaOp) : List UInt8 := putByte op.tag ++ putOpFields op

theorem opCodec : OpCodec DeltaOp.Fits DeltaOp.Encodable putOp extendOp takeOp where
  extend_iff := fun _ _ ↦ extendOp_eq_ok_iff
  short := by
    intro op _
    have hfields := length_putOpFields_le op
    rw [putOp, putByte, length_append, length_singleton]
    omega
  extend_ne := extendOp_ne_frameTooLarge
  codes := codes_op

/-! ### Whole frames -/

section Frames

variable {α : Type}

/-- What the claims of a wire format are: an accepted value decodes to itself, the accepted values
are exactly the encodable ones, no value is refused as too large, and what decodes is accepted with
bytes that are no longer. -/
structure WireFormat (fits encodable : α → Prop) (encode : α → Except CodecError (List UInt8))
    (decode : List UInt8 → Except CodecError α) : Prop where
  accepts_iff : ∀ frame, (∃ bytes, encode frame = .ok bytes) ↔ encodable frame
  never_large : ∀ frame, encode frame ≠ .error .frameTooLarge
  round_trip : ∀ frame bytes, fits frame → encode frame = .ok bytes → decode bytes = .ok frame
  sound : ∀ bytes frame, decode bytes = .ok frame → fits frame ∧ ∃ shortest,
    encode frame = .ok shortest ∧ shortest.length ≤ bytes.length ∧ decode shortest = .ok frame

/-- A capped decoder is a wire format. Assumes: the encoder writes the bytes of the encodable values
within the cap, and the reader reads them. -/
theorem wireFormat_of_codes {fits encodable : α → Prop} {put : α → List UInt8}
    {encode : α → Except CodecError (List UInt8)} {read : WireReader α} {cap : ℕ}
    {fault : CodecError}
    (hencode : ∀ frame bytes, encode frame = .ok bytes ↔ encodable frame ∧ bytes = put frame)
    (hcap : ∀ frame, encodable frame → (put frame).length ≤ cap)
    (hlarge : ∀ frame, encode frame ≠ .error .frameTooLarge)
    (hcodes : Codes (fun frame bytes ↦ fits frame ∧ encode frame = .ok bytes) read) :
    WireFormat fits encodable encode fun bytes ↦
      if cap < bytes.length then .error fault else readAll read .malformed bytes := by
  have hround (frame : α) (bytes : List UInt8) (hfits : fits frame)
      (hok : encode frame = .ok bytes) : (if cap < bytes.length then .error fault
        else readAll read .malformed bytes) = .ok frame := by
    obtain ⟨hencodable, rfl⟩ := (hencode frame bytes).mp hok
    rw [if_neg (not_lt.mpr (hcap frame hencodable))]
    exact hcodes.readAll_canonical _ ⟨hfits, hok⟩
  refine ⟨fun frame ↦ ⟨?_, fun hframe ↦ ?_⟩, hlarge, hround, fun bytes frame hdecode ↦ ?_⟩
  · rintro ⟨bytes, hok⟩
    exact ((hencode frame bytes).mp hok).1
  · exact ⟨put frame, (hencode frame _).mpr ⟨hframe, rfl⟩⟩
  · split_ifs at hdecode
    obtain ⟨shortest, ⟨hfits, hok⟩, hlength⟩ := hcodes.readAll_sound hdecode
    exact ⟨hfits, shortest, hok, hlength, hround frame shortest hfits hok⟩

theorem WireFormat.map {β : Type} {fits encodable : α → Prop}
    {encode : α → Except CodecError (List UInt8)} {decode : List UInt8 → Except CodecError α}
    (hformat : WireFormat fits encodable encode decode) (build : α → β) (parts : β → α)
    (hbuild : ∀ value, build (parts value) = value) (hparts : ∀ value, parts (build value) = value)
    {fitsOther encodableOther : β → Prop} (hfits : ∀ value, fitsOther value ↔ fits (parts value))
    (hencodable : ∀ value, encodableOther value ↔ encodable (parts value)) :
    WireFormat fitsOther encodableOther (fun value ↦ encode (parts value))
      fun bytes ↦ (decode bytes).map build := by
  have hround (value : β) (bytes : List UInt8) (hvalue : fitsOther value)
      (hok : encode (parts value) = .ok bytes) : (decode bytes).map build = .ok value := by
    rw [hformat.round_trip _ _ ((hfits value).mp hvalue) hok]
    exact congrArg Except.ok (hbuild value)
  refine ⟨fun value ↦ ?_, fun value ↦ hformat.never_large _, hround, fun bytes value hmap ↦ ?_⟩
  · rw [hencodable]
    exact hformat.accepts_iff _
  · cases hdecode : decode bytes with
    | error fault =>
      rw [hdecode] at hmap
      exact absurd hmap (error_ne_ok _ _)
    | ok read =>
      rw [hdecode] at hmap
      cases hmap
      obtain ⟨hread, shortest, hok, hlength, -⟩ := hformat.sound bytes read hdecode
      have hvalue : fitsOther (build read) := (hfits _).mpr ((hparts read).symm ▸ hread)
      have hok : encode (parts (build read)) = .ok shortest := (hparts read).symm ▸ hok
      exact ⟨hvalue, shortest, hok, hlength, hround _ _ hvalue hok⟩

theorem OpCodec.wireFormat {fits encodable : α → Prop} {put : α → List UInt8}
    {extend : α → Except CodecError (List UInt8)} {takeOp : WireReader α}
    (hcodec : OpCodec fits encodable put extend takeOp) {version : ℕ} (hversion : version < 256) :
    WireFormat (DeltaFields.Fits fits) (DeltaFields.Encodable encodable)
      (encodeDeltaOf version extend) (decodeDeltaOf version takeOp) :=
  wireFormat_of_codes (hcodec.encodeDeltaOf_iff version)
    (fun _ hframe ↦ hcodec.length_putDelta_le hframe version) (hcodec.encodeDeltaOf_ne version)
    (hcodec.codes_delta hversion)

theorem intentFormat {takeUlid : WireReader Ulid}
    (hulid : Codes (fun id bytes ↦ bytes = putText (ulidText id)) takeUlid) {version : ℕ}
    (hversion : version < 256) :
    WireFormat IntentFrame.Fits IntentFrame.Encodable (encodeIntentOf version)
      (decodeIntentOf version takeUlid) := by
  refine wireFormat_of_codes (fun _ _ ↦ encodeIntentOf_eq_ok_iff)
    (fun frame _ ↦ (length_putIntent_le version frame).trans (by decide)) (fun frame ↦ ?_)
    (codes_intent hulid hversion)
  rw [encodeIntentOf_eq]
  split_ifs <;> exact nofun

end Frames

end Crpg.Net
