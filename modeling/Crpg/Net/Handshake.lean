import Crpg.Lib.ByteFields
import Crpg.Net.ResumeFormat

/-!
# Frame headers and the handshake

`crpg-net-quic/src/handshake.rs`. A frame travels behind a header of four bytes: its length on the
first framing, and a channel with a length of 24 bits on the second. A connection opens with a hello
and a welcome of fixed layout. A length is parsed under the same cap it is written under, and what
is parsed is exactly what is written.
-/

set_option autoImplicit false

namespace Crpg.Net

open Crpg.Core Crpg.Lib

/-! ### Frame headers -/

abbrev frameHeaderBytes : ℕ := 4

inductive FrameError
  | empty
  | tooLarge
  | unknownChannel
deriving DecidableEq

/-- A number that fits four bytes, as they are. -/
def bigEndian32 (value : ℕ) : Vector UInt8 frameHeaderBytes :=
  ⟨(beBytes frameHeaderBytes value).toArray, by rw [List.size_toArray, length_beBytes]⟩

/-- `frame_header`: the header of a payload length under a cap. -/
def frameHeader (len cap : ℕ) : Except FrameError (Vector UInt8 frameHeaderBytes) :=
  if len = 0 then .error .empty
  else if cap < len then .error .tooLarge
  else if 2 ^ 32 ≤ len then .error .tooLarge
  else .ok (bigEndian32 len)

def checkLength (len cap : ℕ) : Except FrameError ℕ :=
  if len = 0 then .error .empty else if cap < len then .error .tooLarge else .ok len

/-- `parse_frame_header`: the payload length a header declares. -/
def parseFrameHeader (header : Vector UInt8 frameHeaderBytes) (cap : ℕ) : Except FrameError ℕ :=
  checkLength (beValue header.toList) cap

/-- A channel of the second framing. -/
inductive Channel
  | lane0
  | transfer
  | resume
deriving DecidableEq

namespace Channel

/-- `Channel::as_u8`. -/
def asU8 : Channel → UInt8
  | lane0 => 0x00
  | transfer => 0x81
  | resume => 0x91

/-- `Channel::from_u8`. -/
def fromU8 (raw : UInt8) : Option Channel :=
  if raw = 0x00 then some lane0
  else if raw = 0x81 then some transfer
  else if raw = 0x91 then some resume
  else none

theorem fromU8_eq_some_iff {raw : UInt8} {channel : Channel} :
    fromU8 raw = some channel ↔ raw = channel.asU8 := by
  constructor
  · intro hsome
    unfold fromU8 at hsome
    split_ifs at hsome with hlane htransfer hresume <;> cases hsome <;> assumption
  · rintro rfl
    cases channel <;> rfl

end Channel

/-- `channel_frame_header`: the header of a channel and a payload length under a cap. -/
def channelFrameHeader (channel : Channel) (len cap : ℕ) :
    Except FrameError (Vector UInt8 frameHeaderBytes) :=
  if len = 0 then .error .empty
  else if cap < len ∨ 0x00FFFFFF < len then .error .tooLarge
  else .ok #v[channel.asU8, UInt8.ofNat (len / 2 ^ 16 % 256), UInt8.ofNat (len / 2 ^ 8 % 256),
    UInt8.ofNat (len % 256)]

/-- `parse_channel_frame_header`: the channel and the payload length a header declares. -/
def parseChannelFrameHeader (header : Vector UInt8 frameHeaderBytes) (cap : ℕ) :
    Except FrameError (Channel × ℕ) :=
  match Channel.fromU8 header[0] with
  | none => .error .unknownChannel
  | some channel => do
    let len ← checkLength (beValue [0, header[1], header[2], header[3]]) cap
    .ok (channel, len)

theorem checkLength_eq_ok_iff {len cap result : ℕ} :
    checkLength len cap = .ok result ↔ result = len ∧ len ≠ 0 ∧ len ≤ cap := by
  unfold checkLength
  split_ifs with hzero hlong
  · simp [hzero]
  · simp [not_le.mpr hlong]
  · simp [hzero, not_lt.mp hlong, eq_comm]

theorem beValue_bigEndian32 {value : ℕ} (hvalue : value < 2 ^ 32) :
    beValue (bigEndian32 value).toList = value :=
  beValue_beBytes hvalue

theorem bigEndian32_beValue (header : Vector UInt8 frameHeaderBytes) :
    bigEndian32 (beValue header.toList) = header := by
  apply Vector.toList_inj.mp
  show beBytes frameHeaderBytes (beValue header.toList) = header.toList
  rw [← eq_beBytes_of_length header.length_toList]

/-- A header declares a length under a cap exactly when the length is written as that header. -/
theorem parseFrameHeader_iff (header : Vector UInt8 frameHeaderBytes) (len cap : ℕ) :
    parseFrameHeader header cap = .ok len ↔ frameHeader len cap = .ok header := by
  have hlt : beValue header.toList < 2 ^ 32 := by
    have hbound := beValue_lt header.toList
    rw [header.length_toList] at hbound
    exact hbound
  rw [parseFrameHeader, checkLength_eq_ok_iff]
  constructor
  · rintro ⟨rfl, hzero, hcap⟩
    rw [frameHeader, if_neg hzero, if_neg (not_lt.mpr hcap), if_neg (not_le.mpr hlt),
      bigEndian32_beValue]
  · intro hheader
    unfold frameHeader at hheader
    split_ifs at hheader with hzero hcap hlong
    cases hheader
    rw [beValue_bigEndian32 (not_le.mp hlong)]
    exact ⟨rfl, hzero, not_lt.mp hcap⟩

/-- The two sides refuse a length for the same reason. -/
theorem frameHeader_error_iff (len cap : ℕ) (hlen : len < 2 ^ 32) (fault : FrameError) :
    frameHeader len cap = .error fault ↔ parseFrameHeader (bigEndian32 len) cap = .error fault := by
  rw [parseFrameHeader, beValue_bigEndian32 hlen, frameHeader, checkLength,
    if_neg (not_le.mpr hlen)]
  split_ifs
  · simp
  · simp
  · simp

theorem beValue_low {len : ℕ} (hlen : len ≤ 0x00FFFFFF) :
    beValue [0, UInt8.ofNat (len / 2 ^ 16 % 256), UInt8.ofNat (len / 2 ^ 8 % 256),
      UInt8.ofNat (len % 256)] = len := by
  simp only [beValue, List.reverse_cons, List.reverse_nil, List.nil_append, List.cons_append,
    leValue, UInt8.toNat_ofNat', UInt8.toNat_zero]
  omega

theorem eq_of_bytes (header : Vector UInt8 frameHeaderBytes) :
    header = #v[header[0], header[1], header[2], header[3]] := by
  apply Vector.ext
  intro index hindex
  match index with
  | 0 => rfl
  | 1 => rfl
  | 2 => rfl
  | 3 => rfl

theorem parseChannelFrameHeader_iff (header : Vector UInt8 frameHeaderBytes) (channel : Channel)
    (len cap : ℕ) : parseChannelFrameHeader header cap = .ok (channel, len) ↔
      channelFrameHeader channel len cap = .ok header := by
  constructor
  · intro hparse
    unfold parseChannelFrameHeader at hparse
    split at hparse
    · exact absurd hparse (error_ne_ok _ _)
    · next found hfound =>
      obtain ⟨length, hlength, hok⟩ := except_bind_eq_ok_iff.mp hparse
      cases hok
      obtain ⟨hvalue, hzero, hcap⟩ := checkLength_eq_ok_iff.mp hlength
      rw [← hvalue] at hzero hcap
      have hone := header[1].toNat_lt
      have htwo := header[2].toNat_lt
      have hthree := header[3].toNat_lt
      simp only [beValue, List.reverse_cons, List.reverse_nil, List.nil_append, List.cons_append,
        leValue, UInt8.toNat_zero] at hvalue
      have hbytes : UInt8.ofNat (len / 2 ^ 16 % 256) = header[1] ∧
          UInt8.ofNat (len / 2 ^ 8 % 256) = header[2] ∧ UInt8.ofNat (len % 256) = header[3] := by
        refine ⟨?_, ?_, ?_⟩ <;>
          · apply UInt8.toNat_inj.mp
            rw [UInt8.toNat_ofNat']
            omega
      rw [channelFrameHeader, if_neg hzero, if_neg (by omega), hbytes.1, hbytes.2.1, hbytes.2.2,
        ← Channel.fromU8_eq_some_iff.mp hfound, ← eq_of_bytes]
  · intro hheader
    unfold channelFrameHeader at hheader
    split_ifs at hheader with hzero hlong
    cases hheader
    rw [not_or, not_lt, not_lt] at hlong
    show (match Channel.fromU8 channel.asU8 with
      | none => Except.error FrameError.unknownChannel
      | some channel => do
        let len ← checkLength (beValue [0, UInt8.ofNat (len / 2 ^ 16 % 256),
          UInt8.ofNat (len / 2 ^ 8 % 256), UInt8.ofNat (len % 256)]) cap
        Except.ok (channel, len)) = _
    rw [Channel.fromU8_eq_some_iff.mpr rfl, beValue_low hlong.2,
      checkLength_eq_ok_iff.mpr ⟨rfl, hzero, hlong.1⟩]
    rfl

/-- The two sides refuse a length of a channel for the same reason. -/
theorem channelFrameHeader_error_iff (channel : Channel) (len cap : ℕ) (hlen : len ≤ 0x00FFFFFF)
    (fault : FrameError) : channelFrameHeader channel len cap = .error fault ↔
      parseChannelFrameHeader #v[channel.asU8, UInt8.ofNat (len / 2 ^ 16 % 256),
        UInt8.ofNat (len / 2 ^ 8 % 256), UInt8.ofNat (len % 256)] cap = .error fault := by
  show _ ↔ (match Channel.fromU8 channel.asU8 with
    | none => Except.error FrameError.unknownChannel
    | some channel => do
      let len ← checkLength (beValue [0, UInt8.ofNat (len / 2 ^ 16 % 256),
        UInt8.ofNat (len / 2 ^ 8 % 256), UInt8.ofNat (len % 256)]) cap
      Except.ok (channel, len)) = _
  rw [Channel.fromU8_eq_some_iff.mpr rfl, beValue_low hlen, channelFrameHeader, checkLength]
  simp only [not_lt.mpr hlen, or_false]
  split_ifs
  · show _ ↔ Except.error _ = _
    rw [Except.error.injEq, Except.error.injEq]
  · show _ ↔ Except.error _ = _
    rw [Except.error.injEq, Except.error.injEq]
  · exact ⟨nofun, nofun⟩

/-! ### Credentials -/

def minCredentialBytes : ℕ := 16

def maxCredentialBytes : ℕ := 128

/-- A credential length outside the bounds. -/
inductive CredentialError
  | tooShort
  | tooLong
deriving DecidableEq

/-- An invitation credential: opaque bytes within the length bounds. -/
structure Credential where
  bytes : List UInt8
  long : minCredentialBytes ≤ bytes.length
  short : bytes.length ≤ maxCredentialBytes
deriving DecidableEq

/-- `Credential::new`. -/
def Credential.new (bytes : List UInt8) : Except CredentialError Credential :=
  if hlong : bytes.length < minCredentialBytes then .error .tooShort
  else if hshort : maxCredentialBytes < bytes.length then .error .tooLong
  else .ok ⟨bytes, not_lt.mp hlong, not_lt.mp hshort⟩

theorem Credential.new_bytes (credential : Credential) :
    Credential.new credential.bytes = .ok credential := by
  unfold Credential.new
  rw [dif_neg (not_lt.mpr credential.long), dif_neg (not_lt.mpr credential.short)]

/-! ### Hello and welcome -/

/-- A hello or welcome payload the handshake rejects. -/
inductive HandshakeError
  | malformed
  | unsupportedWireVersion
  | credentialLength
deriving DecidableEq

def checkWireVersion (version : UInt8) : Except HandshakeError Unit :=
  if version.toNat = protocolVersion ∨ version.toNat = protocolVersionV2 then .ok ()
  else .error .unsupportedWireVersion

/-- The first frame of a client. -/
structure Hello where
  wireVersion : UInt8
  credential : Credential
deriving DecidableEq

namespace Hello

/-- `Hello::encode`. -/
def encode (hello : Hello) : Except HandshakeError (List UInt8) := do
  checkWireVersion hello.wireVersion
  if 256 ≤ hello.credential.bytes.length then .error .credentialLength
  else .ok (hello.wireVersion :: UInt8.ofNat hello.credential.bytes.length ::
    hello.credential.bytes)

/-- `Hello::decode`. -/
def decode : List UInt8 → Except HandshakeError Hello
  | wireVersion :: length :: rest => do
    checkWireVersion wireVersion
    if length.toNat < minCredentialBytes ∨ maxCredentialBytes < length.toNat then
      .error .credentialLength
    else if (wireVersion :: length :: rest).length ≠ 2 + length.toNat then .error .malformed
    else
      match Credential.new rest with
      | .error _ => .error .credentialLength
      | .ok credential => .ok ⟨wireVersion, credential⟩
  | _ => .error .malformed

theorem decode_iff (hello : Hello) (bytes : List UInt8) :
    decode bytes = .ok hello ↔ hello.encode = .ok bytes := by
  have hlimit : maxCredentialBytes = 128 := rfl
  constructor
  · intro hdecode
    match bytes with
    | [] => exact absurd hdecode (error_ne_ok _ _)
    | [_] => exact absurd hdecode (error_ne_ok _ _)
    | wireVersion :: length :: rest =>
      obtain ⟨⟨⟩, hversion, hrest⟩ := except_bind_eq_ok_iff.mp hdecode
      split_ifs at hrest with hbounds hlength
      rw [not_or, not_lt, not_lt] at hbounds
      have hcount : rest.length = length.toNat := by
        rw [List.length_cons, List.length_cons] at hlength
        omega
      have hnew := Credential.new_bytes ⟨rest, hcount ▸ hbounds.1, hcount ▸ hbounds.2⟩
      rw [show Credential.new rest = _ from hnew] at hrest
      cases hrest
      rw [encode, except_bind_eq_ok_iff]
      refine ⟨(), hversion, ?_⟩
      rw [if_neg (by show ¬256 ≤ rest.length; omega)]
      show Except.ok (wireVersion :: UInt8.ofNat rest.length :: rest) = _
      rw [hcount, UInt8.ofNat_toNat]
  · intro hencode
    obtain ⟨⟨⟩, hversion, hrest⟩ := except_bind_eq_ok_iff.mp hencode
    have hlong := hello.credential.long
    have hshort := hello.credential.short
    rw [if_neg (by omega)] at hrest
    cases hrest
    have hlength : (UInt8.ofNat hello.credential.bytes.length).toNat =
        hello.credential.bytes.length := UInt8.toNat_ofNat_of_lt' (by
      show hello.credential.bytes.length < 256
      omega)
    rw [decode, except_bind_eq_ok_iff]
    refine ⟨(), hversion, ?_⟩
    rw [hlength, if_neg (by omega), if_neg (by
      rw [List.length_cons, List.length_cons]
      omega), Credential.new_bytes]

theorem encode_iff (hello : Hello) : (∃ bytes, hello.encode = .ok bytes) ↔
    checkWireVersion hello.wireVersion = .ok () := by
  constructor
  · rintro ⟨bytes, hencode⟩
    obtain ⟨⟨⟩, hversion, -⟩ := except_bind_eq_ok_iff.mp hencode
    exact hversion
  · intro hversion
    have hshort := hello.credential.short
    have hlimit : maxCredentialBytes = 128 := rfl
    refine ⟨_, except_bind_eq_ok_iff.mpr ⟨(), hversion, if_neg (by omega)⟩⟩

theorem length_of_decode {hello : Hello} {bytes : List UInt8} (hdecode : decode bytes = .ok hello) :
    bytes.length = 2 + hello.credential.bytes.length ∧
      (bytes[1]?).map UInt8.toNat = some hello.credential.bytes.length := by
  obtain ⟨⟨⟩, -, hrest⟩ := except_bind_eq_ok_iff.mp ((decode_iff hello bytes).mp hdecode)
  have hshort := hello.credential.short
  have hlimit : maxCredentialBytes = 128 := rfl
  rw [if_neg (by omega)] at hrest
  cases hrest
  refine ⟨?_, ?_⟩
  · rw [List.length_cons, List.length_cons]
    omega
  · show some (UInt8.ofNat _).toNat = _
    rw [UInt8.toNat_ofNat_of_lt' (by
      show hello.credential.bytes.length < 256
      omega)]

end Hello

def welcomeBytes : ℕ := 17

/-- The first frame of a server. -/
structure Welcome where
  wireVersion : UInt8
  epoch : SessionEpoch
deriving DecidableEq

namespace Welcome

/-- `Welcome::encode`. -/
def encode (welcome : Welcome) : Except HandshakeError (List UInt8) := do
  checkWireVersion welcome.wireVersion
  .ok (welcome.wireVersion :: welcome.epoch.toList)

/-- `Welcome::decode`. -/
def decode : List UInt8 → Except HandshakeError Welcome
  | wireVersion :: rest =>
    if hlength : rest.toArray.size = 16 then do
      checkWireVersion wireVersion
      .ok ⟨wireVersion, ⟨rest.toArray, hlength⟩⟩
    else .error .malformed
  | [] => .error .malformed

theorem decode_iff (welcome : Welcome) (bytes : List UInt8) :
    decode bytes = .ok welcome ↔ welcome.encode = .ok bytes := by
  constructor
  · intro hdecode
    match bytes with
    | [] => exact absurd hdecode (error_ne_ok _ _)
    | wireVersion :: rest =>
      rw [decode] at hdecode
      split_ifs at hdecode with hlength
      obtain ⟨⟨⟩, hversion, hrest⟩ := except_bind_eq_ok_iff.mp hdecode
      cases hrest
      exact except_bind_eq_ok_iff.mpr ⟨(), hversion, rfl⟩
  · intro hencode
    obtain ⟨⟨⟩, hversion, hrest⟩ := except_bind_eq_ok_iff.mp hencode
    cases hrest
    rw [decode, dif_pos (by rw [List.size_toArray, Vector.length_toList]),
      except_bind_eq_ok_iff]
    exact ⟨(), hversion, rfl⟩

theorem encode_iff (welcome : Welcome) : (∃ bytes, welcome.encode = .ok bytes) ↔
    checkWireVersion welcome.wireVersion = .ok () := by
  constructor
  · rintro ⟨bytes, hencode⟩
    obtain ⟨⟨⟩, hversion, -⟩ := except_bind_eq_ok_iff.mp hencode
    exact hversion
  · intro hversion
    exact ⟨_, except_bind_eq_ok_iff.mpr ⟨(), hversion, rfl⟩⟩

theorem decode_of_length_ne {bytes : List UInt8} (hlength : bytes.length ≠ welcomeBytes) :
    decode bytes = .error .malformed := by
  match bytes with
  | [] => rfl
  | wireVersion :: rest =>
    have hseventeen : welcomeBytes = 17 := rfl
    rw [List.length_cons] at hlength
    rw [decode, dif_neg (by rw [List.size_toArray]; omega)]

end Welcome

/-! ### The session formats -/

/-- A header function and its parser. -/
structure HeaderFormat : Prop where
  parse_iff : ∀ header len cap,
    parseFrameHeader header cap = .ok len ↔ frameHeader len cap = .ok header
  same_check : ∀ len cap, len < 2 ^ 32 → ∀ fault, frameHeader len cap = .error fault ↔
    parseFrameHeader (bigEndian32 len) cap = .error fault
  channel_parse_iff : ∀ header channel len cap,
    parseChannelFrameHeader header cap = .ok (channel, len) ↔
      channelFrameHeader channel len cap = .ok header
  channel_same_check : ∀ channel len cap, len ≤ 0x00FFFFFF → ∀ fault,
    channelFrameHeader channel len cap = .error fault ↔
      parseChannelFrameHeader #v[channel.asU8, UInt8.ofNat (len / 2 ^ 16 % 256),
        UInt8.ofNat (len / 2 ^ 8 % 256), UInt8.ofNat (len % 256)] cap = .error fault

structure HandshakeFormat : Prop where
  hello_iff : ∀ hello bytes, Hello.decode bytes = .ok hello ↔ hello.encode = .ok bytes
  hello_encodes : ∀ hello : Hello, (∃ bytes, hello.encode = .ok bytes) ↔
    checkWireVersion hello.wireVersion = .ok ()
  hello_length : ∀ hello bytes, Hello.decode bytes = .ok hello →
    bytes.length = 2 + hello.credential.bytes.length ∧
      (bytes[1]?).map UInt8.toNat = some hello.credential.bytes.length
  welcome_iff : ∀ welcome bytes, Welcome.decode bytes = .ok welcome ↔ welcome.encode = .ok bytes
  welcome_encodes : ∀ welcome : Welcome, (∃ bytes, welcome.encode = .ok bytes) ↔
    checkWireVersion welcome.wireVersion = .ok ()
  welcome_length : ∀ bytes, bytes.length ≠ welcomeBytes → Welcome.decode bytes = .error .malformed

/-- The resume codecs are wire formats whose only other inputs have longer integers; no bytes belong
to two vocabularies; and headers, hellos and welcomes are parsed as they are written. -/
theorem session_formats :
    IntegerFormat ResumeRequest.Fits ResumeRequest.Valid ResumeRequest.Written encodeRequest
      decodeRequest ∧
    IntegerFormat ResumeDown.Fits ResumeDown.Valid ResumeDown.Written encodeResumeDown
      decodeResumeDown ∧ (∀ value form, VarintForm 64 value form →
      form = putInt 64 value ∨ (putInt 64 value).length < form.length) ∧
    (∀ (first second : Vocabulary) bytes,
      (first.AcceptsUp bytes → second.AcceptsUp bytes → first = second) ∧
      (first.AcceptsDown bytes → second.AcceptsDown bytes → first = second)) ∧
    HeaderFormat ∧ HandshakeFormat :=
  ⟨request_format, resumeDown_format, fun _ _ ↦ VarintForm.eq_or_longer,
    fun _ _ _ ↦ ⟨Vocabulary.acceptsUp_unique, Vocabulary.acceptsDown_unique⟩,
    ⟨parseFrameHeader_iff, frameHeader_error_iff, parseChannelFrameHeader_iff,
      channelFrameHeader_error_iff⟩,
    ⟨Hello.decode_iff, Hello.encode_iff, fun _ _ ↦ Hello.length_of_decode, Welcome.decode_iff,
      Welcome.encode_iff, fun _ ↦ Welcome.decode_of_length_ne⟩⟩

end Crpg.Net
