import Crpg.Lib.ByteFields

/-!
# The save envelope

`crpg-persist`: a save file is a fixed header of 68 bytes and then the raw payload or one
compressed frame. The header holds the magic, the format version, the flags, the kind of the
payload, the two lengths and a digest of everything before it and of the stored body.
`encodeEnvelope` writes it; `decodeEnvelope` checks the fields in a fixed order, first failure wins,
and streams the frame through one chunk buffer, stopping when the output would pass the declared
length.

The compression library and the hash are parameters. `Zstd` is what the code calls: the bulk
compressor with its parameters and the streaming decoder over a slice. `Zstd.Faithful` is what the
code relies on: payloads up to the cap compress, a compressed frame is not empty and streams its
payload back with nothing left over, a read returns no more than it was asked for, and reading a
slice is not interrupted. The loop of `decompressBounded` takes fuel, and a run out of fuel does not
return; `decodeEnvelope_returns` says how much is enough.
-/

set_option autoImplicit false

namespace Crpg.Persist

open Crpg.Lib

/-! ### Constants and errors -/

/-- `SAVE_MAGIC`: the bytes of `CRPGSAVE`. -/
def saveMagic : List UInt8 := [67, 82, 80, 71, 83, 65, 86, 69]

def saveFormatVersion : ℕ := 1

def headerBytes : ℕ := 68

def flagZstd : ℕ := 1

def maxPayloadBytes : ℕ := 16777216

def maxEnvelopeBytes : ℕ := headerBytes + maxPayloadBytes

def zstdLevel : ℤ := 3

def zstdWindowLogMax : ℕ := 24

def decodeChunkBytes : ℕ := 65536

def versionAt : ℕ := 8

def flagsAt : ℕ := 10

def kindAt : ℕ := 12

def payloadLenAt : ℕ := 20

def bodyLenAt : ℕ := 28

def digestAt : ℕ := 36

def frozenPrefixBytes : ℕ := 10

/-- A byte a payload tag may hold: `A-Z`, `0-9` or `_`. -/
def isTagByte (byte : UInt8) : Bool :=
  (65 ≤ byte && byte ≤ 90) || (48 ≤ byte && byte ≤ 57) || byte == 95

/-- `PayloadKind`: eight tag bytes. -/
structure PayloadKind where
  tag : List UInt8
  length_tag : tag.length = 8
  tagBytes : tag.all isTagByte = true
deriving DecidableEq

/-- `PayloadKind::new`. -/
def PayloadKind.new (tag : List UInt8) (hlength : tag.length = 8) : Option PayloadKind :=
  if htag : tag.all isTagByte = true then some ⟨tag, hlength, htag⟩ else none

inductive EnvelopeError
  | inputTooLarge
  | truncated
  | badMagic
  | unsupportedVersion
  | unknownFlags
  | kindMismatch
  | payloadTooLarge
  | lengthMismatch
  | trailingBytes
  | checksumMismatch
  | decompressedTooLarge
  | decompressedTooShort
  | corruptBody
  | compressor
deriving DecidableEq

/-! ### The compression library -/

/-- What one read of a stream yields. -/
inductive ReadOutcome
  | bytes (produced : List UInt8)
  | interrupted
  | failed
deriving DecidableEq

/-- What the code calls of the compression library. `compress` is the bulk compressor at a level,
with the frame's checksum, dictionary id and content size switched on or off. `withBuffer` opens a
single-frame streaming decoder over a slice, `windowLogMax` sets its window ceiling, `read` fills a
buffer of a given length and `finish` gives back what of the slice is unread. -/
structure Zstd where
  Decoder : Type
  compress : (level : ℤ) → (checksum dictId contentSize : Bool) → List UInt8 →
    Option (List UInt8)
  withBuffer : List UInt8 → Option Decoder
  windowLogMax : Decoder → ℕ → Option Decoder
  read : Decoder → ℕ → ReadOutcome × Decoder
  finish : Decoder → List UInt8

/-- A digest of a header front and a body. -/
abbrev Digest := List UInt8 → List UInt8 → List UInt8

/-- A decoder streams `output` in reads of one chunk and ends with `rest` of its slice unread. -/
inductive Streams (zstd : Zstd) : zstd.Decoder → List UInt8 → List UInt8 → Prop
  | done {decoder next : zstd.Decoder}
      (hread : zstd.read decoder decodeChunkBytes = (.bytes [], next)) :
      Streams zstd decoder [] (zstd.finish next)
  | more {decoder next : zstd.Decoder} {byte : UInt8} {chunk output rest : List UInt8}
      (hread : zstd.read decoder decodeChunkBytes = (.bytes (byte :: chunk), next))
      (hrest : Streams zstd next output rest) :
      Streams zstd decoder ((byte :: chunk) ++ output) rest

/-- A body is one frame of `output`: it opens under the window ceiling, streams `output` and leaves
nothing. -/
def Zstd.Frames (zstd : Zstd) (body output : List UInt8) : Prop :=
  ∃ opened decoder, zstd.withBuffer body = some opened ∧
    zstd.windowLogMax opened zstdWindowLogMax = some decoder ∧ Streams zstd decoder output []

/-- What the code relies on of the compression library. -/
structure Zstd.Faithful (zstd : Zstd) : Prop where
  compresses : ∀ payload : List UInt8, payload.length ≤ maxPayloadBytes →
    ∃ frame, zstd.compress zstdLevel false false true payload = some frame ∧ frame ≠ [] ∧
      zstd.Frames frame payload
  read_le : ∀ decoder limit produced next,
    zstd.read decoder limit = (.bytes produced, next) → produced.length ≤ limit
  not_interrupted : ∀ decoder limit, (zstd.read decoder limit).1 ≠ .interrupted

/-! ### Encoding -/

def compress (zstd : Zstd) (payload : List UInt8) : Result EnvelopeError (List UInt8) :=
  .okOr .compressor (zstd.compress zstdLevel false false true payload)

/-- The header up to the digest. -/
def headerFront (flags : ℕ) (kind : PayloadKind) (payloadLen bodyLen : ℕ) : List UInt8 :=
  saveMagic ++ (leBytes 2 saveFormatVersion ++ (leBytes 2 flags ++ (kind.tag ++
    (leBytes 8 payloadLen ++ leBytes 8 bodyLen))))

/-- The envelope of a stored body. -/
def sealBody (digest : Digest) (flags : ℕ) (kind : PayloadKind) (payloadLen : ℕ)
    (body : List UInt8) : List UInt8 :=
  let front := headerFront flags kind payloadLen body.length
  front ++ (digest front body ++ body)

def encodeEnvelope (zstd : Zstd) (digest : Digest) (kind : PayloadKind) (payload : List UInt8) :
    Result EnvelopeError (List UInt8) := do
  .failIf (maxPayloadBytes < payload.length) .payloadTooLarge
  let compressed ← compress zstd payload
  let stored : ℕ × List UInt8 :=
    if compressed.length < payload.length then (flagZstd, compressed) else (0, payload)
  return sealBody digest stored.1 kind payload.length stored.2

/-! ### Decoding -/

def readU16 (bytes : List UInt8) (index : ℕ) : Result EnvelopeError ℕ := do
  let field ← slice bytes index (index + 2)
  return leValue field

def readU64 (bytes : List UInt8) (index : ℕ) : Result EnvelopeError ℕ := do
  let field ← slice bytes index (index + 8)
  return leValue field

structure CheckedHeader where
  flags : ℕ
  payloadLen : ℕ
  body : List UInt8
deriving DecidableEq

/-- The two lengths agree with the flags. -/
def consistent (flags payloadLen bodyLen : ℕ) : Bool :=
  if flags = flagZstd then 1 ≤ bodyLen && bodyLen < payloadLen else bodyLen == payloadLen

/-- `decode_envelope`, steps 1 to 11. -/
def checkHeader (digest : Digest) (expected : PayloadKind) (bytes : List UInt8) :
    Result EnvelopeError CheckedHeader := do
  .failIf (maxEnvelopeBytes < bytes.length) .inputTooLarge
  .failIf (bytes.length < frozenPrefixBytes) .truncated
  let magic ← slice bytes 0 versionAt
  .failIf (magic ≠ saveMagic) .badMagic
  let version ← readU16 bytes versionAt
  .failIf (version ≠ saveFormatVersion) .unsupportedVersion
  .failIf (bytes.length < headerBytes) .truncated
  let flags ← readU16 bytes flagsAt
  -- the complement of the one known flag, as a `u16`
  .failIf (flags &&& (2 ^ 16 - 1 - flagZstd) ≠ 0) .unknownFlags
  let kind ← slice bytes kindAt payloadLenAt
  .failIf (kind ≠ expected.tag) .kindMismatch
  let payloadLen ← readU64 bytes payloadLenAt
  .failIf (maxPayloadBytes < payloadLen) .payloadTooLarge
  let bodyLen ← readU64 bytes bodyLenAt
  .failIf (consistent flags payloadLen bodyLen = false) .lengthMismatch
  .failIf (bytes.length < headerBytes + bodyLen) .truncated
  .failIf (headerBytes + bodyLen < bytes.length) .trailingBytes
  let body ← slice bytes headerBytes bytes.length
  let front ← slice bytes 0 digestAt
  let stored ← slice bytes digestAt headerBytes
  .failIf (digest front body ≠ stored) .checksumMismatch
  return ⟨flags, payloadLen, body⟩

/-- The loop of `decompress_bounded` from a decoder and the output so far, with what follows it. -/
def decompressLoop (zstd : Zstd) (payloadLen : ℕ) :
    ℕ → zstd.Decoder → List UInt8 → Result EnvelopeError (List UInt8)
  | 0, _, _ => .panic
  | fuel + 1, decoder, out =>
    match zstd.read decoder decodeChunkBytes with
    | (.bytes [], next) =>
      if out.length < payloadLen then .err .decompressedTooShort
      else if zstd.finish next ≠ [] then .err .corruptBody
      else .ok out
    | (.bytes (byte :: chunk), next) =>
      if payloadLen < out.length + (byte :: chunk).length then .err .decompressedTooLarge
      else decompressLoop zstd payloadLen fuel next (out ++ (byte :: chunk))
    | (.interrupted, next) => decompressLoop zstd payloadLen fuel next out
    | (.failed, _) => .err .corruptBody

/-- The decoder of `decompress_bounded`. -/
def openDecoder (zstd : Zstd) (body : List UInt8) : Result EnvelopeError zstd.Decoder :=
  (Result.okOr .corruptBody (zstd.withBuffer body)).bind fun decoder ↦
    .okOr .corruptBody (zstd.windowLogMax decoder zstdWindowLogMax)

def decompressBounded (zstd : Zstd) (fuel : ℕ) (body : List UInt8) (payloadLen : ℕ) :
    Result EnvelopeError (List UInt8) :=
  (openDecoder zstd body).bind fun decoder ↦ decompressLoop zstd payloadLen fuel decoder []

def decodeEnvelope (zstd : Zstd) (digest : Digest) (fuel : ℕ) (expected : PayloadKind)
    (bytes : List UInt8) : Result EnvelopeError (List UInt8) := do
  let header ← checkHeader digest expected bytes
  if header.flags = flagZstd then decompressBounded zstd fuel header.body header.payloadLen
  else return header.body

/-! ### Bytes decompressed -/

/-- The bytes the decoder produces while `decompressLoop` runs on it. -/
def loopDecompressed (zstd : Zstd) (payloadLen : ℕ) : ℕ → zstd.Decoder → List UInt8 → ℕ
  | 0, _, _ => 0
  | fuel + 1, decoder, out =>
    match zstd.read decoder decodeChunkBytes with
    | (.bytes [], _) => 0
    | (.bytes (byte :: chunk), next) =>
      if payloadLen < out.length + (byte :: chunk).length then (byte :: chunk).length
      else (byte :: chunk).length +
        loopDecompressed zstd payloadLen fuel next (out ++ (byte :: chunk))
    | (.interrupted, next) => loopDecompressed zstd payloadLen fuel next out
    | (.failed, _) => 0

/-- The bytes that `decodeEnvelope` decompresses of an input. -/
def decompressed (zstd : Zstd) (digest : Digest) (fuel : ℕ) (expected : PayloadKind)
    (bytes : List UInt8) : ℕ :=
  match checkHeader digest expected bytes with
  | .ok header =>
    if header.flags = flagZstd then
      match openDecoder zstd header.body with
      | .ok decoder => loopDecompressed zstd header.payloadLen fuel decoder []
      | _ => 0
    else 0
  | _ => 0

/-- The payload length an input declares. -/
def declaredLen (bytes : List UInt8) : ℕ := leValue ((bytes.drop payloadLenAt).take 8)

/-! ### The header -/

variable {zstd : Zstd} {digest : Digest}

structure Sealed (digest : Digest) (expected : PayloadKind) (bytes : List UInt8)
    (header : CheckedHeader) : Prop where
  bytes_eq : bytes = sealBody digest header.flags expected header.payloadLen header.body
  flags_eq : header.flags = 0 ∨ header.flags = flagZstd
  payload_le : header.payloadLen ≤ maxPayloadBytes
  consistent : consistent header.flags header.payloadLen header.body.length = true

theorem length_headerFront (flags : ℕ) (kind : PayloadKind) (payloadLen bodyLen : ℕ) :
    (headerFront flags kind payloadLen bodyLen).length = digestAt := by
  simp only [headerFront, saveMagic, List.length_append, length_leBytes, kind.length_tag,
    List.length_cons, List.length_nil, digestAt]

theorem body_le_of_consistent {flags payloadLen bodyLen : ℕ}
    (hconsistent : consistent flags payloadLen bodyLen = true) : bodyLen ≤ payloadLen := by
  unfold consistent at hconsistent
  split_ifs at hconsistent
  · simp only [Bool.and_eq_true, decide_eq_true_eq] at hconsistent
    omega
  · simp only [beq_iff_eq] at hconsistent
    omega

/-- The only bit the decoder lets through is the known flag. -/
theorem land_complement_eq_zero_iff {flags : ℕ} (hflags : flags < 2 ^ 16) :
    flags &&& (2 ^ 16 - 1 - flagZstd) = 0 ↔ flags = 0 ∨ flags = flagZstd := by
  have hhalf : (flags &&& (2 ^ 16 - 1 - flagZstd)) / 2 = flags / 2 := by
    have hmask : (2 ^ 16 - 1 - flagZstd) / 2 = 2 ^ 15 - 1 := rfl
    rw [Nat.and_div_two, hmask, Nat.and_two_pow_sub_one_eq_mod]
    omega
  have heven : (flags &&& (2 ^ 16 - 1 - flagZstd)) % 2 = 0 := by
    have hodd : ¬(flags &&& (2 ^ 16 - 1 - flagZstd)) % 2 = 1 := by
      rw [Nat.and_mod_two_eq_one]
      exact fun hboth ↦ absurd hboth.2 (by decide)
    omega
  have hflag : flagZstd = 1 := rfl
  omega

section Length

variable (hdigest : ∀ front body, (digest front body).length = 32)
include hdigest

theorem length_sealBody (flags : ℕ) (kind : PayloadKind) (payloadLen : ℕ) (body : List UInt8) :
    (sealBody digest flags kind payloadLen body).length = headerBytes + body.length := by
  simp only [sealBody, List.length_append, length_headerFront, hdigest, digestAt, headerBytes]
  omega

theorem Sealed.length_eq {expected : PayloadKind} {bytes : List UInt8} {header : CheckedHeader}
    (hsealed : Sealed digest expected bytes header) :
    bytes.length = headerBytes + header.body.length := by
  rw [hsealed.bytes_eq, length_sealBody hdigest]

end Length

theorem fields_sealBody (hdigest : ∀ front body, (digest front body).length = 32) {flags : ℕ}
    {kind : PayloadKind} {payloadLen : ℕ} {body bytes : List UInt8}
    (hbytes : bytes = sealBody digest flags kind payloadLen body) :
    slice bytes 0 versionAt = (.ok saveMagic : Result EnvelopeError _) ∧
    slice bytes versionAt (versionAt + 2) =
      (.ok (leBytes 2 saveFormatVersion) : Result EnvelopeError _) ∧
    slice bytes flagsAt (flagsAt + 2) = (.ok (leBytes 2 flags) : Result EnvelopeError _) ∧
    slice bytes kindAt payloadLenAt = (.ok kind.tag : Result EnvelopeError _) ∧
    slice bytes payloadLenAt (payloadLenAt + 8) =
      (.ok (leBytes 8 payloadLen) : Result EnvelopeError _) ∧
    slice bytes bodyLenAt (bodyLenAt + 8) = (.ok (leBytes 8 body.length) : Result EnvelopeError _) ∧
    slice bytes headerBytes bytes.length = (.ok body : Result EnvelopeError _) ∧
    slice bytes 0 digestAt =
      (.ok (headerFront flags kind payloadLen body.length) : Result EnvelopeError _) ∧
    slice bytes digestAt headerBytes =
      (.ok (digest (headerFront flags kind payloadLen body.length) body) :
        Result EnvelopeError _) := by
  have hlength := length_sealBody hdigest flags kind payloadLen body
  have hfront := length_headerFront flags kind payloadLen body.length
  have htag := kind.length_tag
  rw [← hbytes] at hlength
  let stamp := digest (headerFront flags kind payloadLen body.length) body
  let lengths := leBytes 8 payloadLen ++ (leBytes 8 body.length ++ (stamp ++ body))
  have hfields : bytes = saveMagic ++ (leBytes 2 saveFormatVersion ++ (leBytes 2 flags ++
      (kind.tag ++ lengths))) := by
    rw [hbytes, sealBody]
    simp only [headerFront, List.append_assoc, lengths, stamp]
  refine ⟨?_, ?_, ?_, ?_, ?_, ?_, ?_, ?_, ?_⟩
  · exact slice_of_append [] saveMagic _ hfields rfl rfl
  · exact slice_of_append saveMagic (leBytes 2 saveFormatVersion) _ hfields rfl rfl
  · refine slice_of_append (saveMagic ++ leBytes 2 saveFormatVersion) (leBytes 2 flags)
      (kind.tag ++ lengths) ?_ rfl ?_
    · rw [hfields, List.append_assoc]
    · rw [length_leBytes]
  · refine slice_of_append (saveMagic ++ (leBytes 2 saveFormatVersion ++ leBytes 2 flags))
      kind.tag lengths ?_ ?_ ?_
    · simp only [hfields, List.append_assoc]
    · simp only [List.length_append, length_leBytes]
      rfl
    · rw [htag]
      rfl
  · refine slice_of_append (saveMagic ++ (leBytes 2 saveFormatVersion ++ (leBytes 2 flags ++
      kind.tag))) (leBytes 8 payloadLen) (leBytes 8 body.length ++ (stamp ++ body)) ?_ ?_ ?_
    · simp only [hfields, lengths, List.append_assoc]
    · simp only [List.length_append, length_leBytes, htag]
      rfl
    · rw [length_leBytes]
  · refine slice_of_append (saveMagic ++ (leBytes 2 saveFormatVersion ++ (leBytes 2 flags ++
      (kind.tag ++ leBytes 8 payloadLen)))) (leBytes 8 body.length) (stamp ++ body) ?_ ?_ ?_
    · simp only [hfields, lengths, List.append_assoc]
    · simp only [List.length_append, length_leBytes, htag]
      rfl
    · rw [length_leBytes]
  · refine slice_of_append (headerFront flags kind payloadLen body.length ++
      digest (headerFront flags kind payloadLen body.length) body) body [] ?_ ?_ ?_
    · simp only [hbytes, sealBody, List.append_assoc, List.append_nil]
    · simp only [List.length_append, hfront, hdigest]
      rfl
    · exact hlength.symm
  · exact slice_of_append [] _ _ hbytes rfl (by rw [hfront, Nat.zero_add])
  · exact slice_of_append _ (digest (headerFront flags kind payloadLen body.length) body) _ hbytes
      hfront (by rw [hdigest]; rfl)

/-- The checks of the header pass exactly on a sealed body: nothing precedes, interrupts or follows
the fields. Assumes: digests of 32 bytes. -/
theorem checkHeader_eq_ok_iff (hdigest : ∀ front body, (digest front body).length = 32)
    {expected : PayloadKind} {bytes : List UInt8} {header : CheckedHeader} :
    checkHeader digest expected bytes = .ok header ↔ Sealed digest expected bytes header := by
  constructor
  · intro hcheck
    simp only [checkHeader, readU16, readU64, Result.bind_ok_iff, Result.pure_ok_iff,
      Result.failIf_eq_ok_iff] at hcheck
    obtain ⟨-, hsize, -, -, magic, hmagic, -, hmagicEq, version, ⟨versionField, hversion, hversionEq⟩,
      -, hversionOk, -, -, flags, ⟨flagsField, hflags, hflagsEq⟩, -, hknown, kind, hkind, -, hkindEq,
      payloadLen, ⟨payloadField, hpayload, hpayloadEq⟩, -, hpayloadLe, bodyLen,
      ⟨bodyField, hbodyLen, hbodyEq⟩, -, hconsistent, -, hfits, -, hends, body, hbody, front, hfront,
      stamp, hstamp, -, hdigestEq, rfl⟩ := hcheck
    simp only [ne_eq, not_not] at hmagicEq hversionOk hknown hkindEq hdigestEq
    obtain ⟨hmagicDrop, -⟩ := append_of_slice hmagic
    obtain ⟨hversionDrop, hversionLen⟩ := append_of_slice hversion
    obtain ⟨hflagsDrop, hflagsLen⟩ := append_of_slice hflags
    obtain ⟨hkindDrop, -⟩ := append_of_slice hkind
    obtain ⟨hpayloadDrop, hpayloadLen⟩ := append_of_slice hpayload
    obtain ⟨hbodyLenDrop, hbodyWidth⟩ := append_of_slice hbodyLen
    obtain ⟨hfrontDrop, -⟩ := append_of_slice hfront
    obtain ⟨hstampDrop, -⟩ := append_of_slice hstamp
    obtain ⟨hbodyDrop, hbodyLength⟩ := append_of_slice hbody
    have hbodyIs : body.length = bodyLen := by omega
    rw [List.drop_length, List.append_nil] at hbodyDrop
    have hversionIs := eq_leBytes_of_length hversionLen
    have hflagsIs := eq_leBytes_of_length hflagsLen
    have hpayloadIs := eq_leBytes_of_length hpayloadLen
    have hbodyFieldIs := eq_leBytes_of_length hbodyWidth
    rw [hversionEq, hversionOk] at hversionIs
    rw [hflagsEq] at hflagsIs
    rw [hpayloadEq] at hpayloadIs
    rw [hbodyEq, ← hbodyIs] at hbodyFieldIs
    have hwhole : bytes = headerFront flags expected payloadLen body.length ++
        bytes.drop digestAt := by
      calc bytes = magic ++ bytes.drop versionAt := hmagicDrop
        _ = magic ++ (versionField ++ bytes.drop flagsAt) := congrArg _ hversionDrop
        _ = magic ++ (versionField ++ (flagsField ++ bytes.drop kindAt)) :=
          congrArg _ (congrArg _ hflagsDrop)
        _ = magic ++ (versionField ++ (flagsField ++ (kind ++ bytes.drop payloadLenAt))) :=
          congrArg _ (congrArg _ (congrArg _ hkindDrop))
        _ = magic ++ (versionField ++ (flagsField ++ (kind ++ (payloadField ++
            bytes.drop bodyLenAt)))) :=
          congrArg _ (congrArg _ (congrArg _ (congrArg _ hpayloadDrop)))
        _ = magic ++ (versionField ++ (flagsField ++ (kind ++ (payloadField ++ (bodyField ++
            bytes.drop digestAt))))) :=
          congrArg _ (congrArg _ (congrArg _ (congrArg _ (congrArg _ hbodyLenDrop))))
        _ = _ := by
          rw [hmagicEq, hversionIs, hflagsIs, hkindEq, hpayloadIs, hbodyFieldIs, headerFront]
          simp only [List.append_assoc]
          rfl
    have hfrontIs : front = headerFront flags expected payloadLen body.length :=
      List.append_cancel_right (hfrontDrop.symm.trans hwhole)
    refine ⟨?_, ?_, not_lt.mp hpayloadLe, ?_⟩
    · rw [hwhole, hstampDrop, hbodyDrop, ← hdigestEq, hfrontIs, sealBody]
    · apply (land_complement_eq_zero_iff ?_).mp hknown
      have hlt := leValue_lt flagsField
      rw [hflagsEq, hflagsLen] at hlt
      exact hlt
    · show consistent flags payloadLen body.length = true
      rw [hbodyIs]
      exact Bool.of_not_eq_false hconsistent
  · intro hsealed
    have hlength := hsealed.length_eq hdigest
    have hbody := body_le_of_consistent hsealed.consistent
    have hpayload := hsealed.payload_le
    obtain ⟨hmagic, hversion, hflags, hkind, hpayloadLen, hbodyLen, hrest, hfront, hstamp⟩ :=
      fields_sealBody hdigest hsealed.bytes_eq
    have hversionValue : leValue (leBytes 2 saveFormatVersion) = saveFormatVersion := rfl
    have hflagsValue : leValue (leBytes 2 header.flags) = header.flags :=
      leValue_leBytes (by obtain hflag | hflag := hsealed.flags_eq <;> rw [hflag] <;> decide)
    have hpayloadValue : leValue (leBytes 8 header.payloadLen) = header.payloadLen :=
      leValue_leBytes (hpayload.trans_lt (by decide))
    have hbodyValue : leValue (leBytes 8 header.body.length) = header.body.length :=
      leValue_leBytes ((hbody.trans hpayload).trans_lt (by decide))
    have hknown : header.flags &&& (2 ^ 16 - 1 - flagZstd) = 0 := by
      obtain hflag | hflag := hsealed.flags_eq <;> rw [hflag] <;> rfl
    have hcap : maxEnvelopeBytes = headerBytes + maxPayloadBytes := rfl
    have hfrozen : frozenPrefixBytes ≤ headerBytes := by decide
    simp only [checkHeader, readU16, readU64, Result.bind_eq, Result.pure_eq, hmagic, hversion,
      hflags, hkind, hpayloadLen, hbodyLen, hrest, hfront, hstamp, Result.ok_bind, hversionValue,
      hflagsValue, hpayloadValue, hbodyValue, hknown, hsealed.consistent, ne_eq, not_true_eq_false]
    have hguards : ¬maxEnvelopeBytes < bytes.length ∧ ¬bytes.length < frozenPrefixBytes ∧
        ¬bytes.length < headerBytes ∧ ¬maxPayloadBytes < header.payloadLen ∧
        ¬bytes.length < headerBytes + header.body.length ∧
        ¬headerBytes + header.body.length < bytes.length := by omega
    simp only [Result.failIf, hguards, if_false, Result.ok_bind, Bool.true_eq_false]

end Crpg.Persist
