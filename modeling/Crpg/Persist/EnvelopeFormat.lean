import Crpg.Persist.Envelope

/-!
# What the save envelope accepts

`decodeEnvelope` returns a payload exactly on a consistent envelope: its bytes are one sealed body,
the payload has the declared length, and the body is the payload or one frame of it
(`decodeEnvelope_eq_ok_iff`). It returns on every input once the fuel passes the payload cap
(`decodeEnvelope_returns`), because every read that does not end the loop adds a byte to an output
that never passes the declared length. What the decoder produces can pass it by one chunk, since the
length is compared after the read (`decompressed_le`); the input is then refused
(`decodeEnvelope_of_excess`).
-/

set_option autoImplicit false

namespace Crpg.Persist

open Crpg.Lib
open Result (bind_eq ok_bind pure_eq returns_failIf returns_ok returns_okOr)

variable {zstd : Zstd} {digest : Digest}

/-! ### The loop -/

variable {payloadLen fuel : ℕ} {decoder : zstd.Decoder}

theorem decompressLoop_eq_ok
    (hinterrupt : ∀ decoder limit, (zstd.read decoder limit).1 ≠ .interrupted)
    {out output : List UInt8} (hout : out.length ≤ payloadLen)
    (hloop : decompressLoop zstd payloadLen fuel decoder out = .ok output) :
    ∃ tail, output = out ++ tail ∧ Streams zstd decoder tail [] ∧ output.length = payloadLen := by
  induction fuel generalizing decoder out with
  | zero => cases hloop
  | succ fuel ih =>
    have hnot := hinterrupt decoder decodeChunkBytes
    unfold decompressLoop at hloop
    split at hloop
    · rename_i next hread
      split_ifs at hloop with hshort hleft
      cases hloop
      rw [not_not] at hleft
      have hdone := Streams.done hread
      rw [hleft] at hdone
      exact ⟨[], (List.append_nil _).symm, hdone, by omega⟩
    · rename_i byte chunk next hread
      split_ifs at hloop with hlarge
      have hnext : (out ++ (byte :: chunk)).length ≤ payloadLen := by
        rw [List.length_append]
        exact not_lt.mp hlarge
      obtain ⟨tail, rfl, hstreams, hlength⟩ := ih hnext hloop
      exact ⟨(byte :: chunk) ++ tail, List.append_assoc .., .more hread hstreams, hlength⟩
    · rename_i next hread
      rw [hread] at hnot
      exact absurd rfl hnot
    · cases hloop

/-- A stream of the missing bytes is read to its end. -/
theorem decompressLoop_of_streams (out : List UInt8) {tail : List UInt8}
    (hstreams : Streams zstd decoder tail []) (hlength : (out ++ tail).length = payloadLen)
    (hfuel : tail.length < fuel) :
    decompressLoop zstd payloadLen fuel decoder out = .ok (out ++ tail) := by
  generalize hrest : ([] : List UInt8) = rest at hstreams
  induction hstreams generalizing out fuel with
  | @done decoder next hread =>
    obtain ⟨fuel, rfl⟩ := Nat.exists_eq_succ_of_ne_zero (by omega : fuel ≠ 0)
    rw [List.append_nil] at hlength
    simp only [decompressLoop, hread, ← hrest, List.append_nil, hlength, lt_irrefl, if_false, ne_eq,
      not_true_eq_false]
  | @more decoder next byte chunk output rest hread hstreams ih =>
    obtain ⟨fuel, rfl⟩ := Nat.exists_eq_succ_of_ne_zero (by omega : fuel ≠ 0)
    rw [← List.append_assoc] at hlength
    have hfits : ¬payloadLen < out.length + (byte :: chunk).length := by
      rw [← hlength, List.length_append, List.length_append]
      omega
    simp only [List.length_append, List.length_cons] at hfuel
    have hrun := ih (out ++ (byte :: chunk)) hlength (by omega : _ < fuel) hrest
    simp only [decompressLoop, hread, hfits, if_false, hrun, List.append_assoc]

/-- The loop ends: each read that does not end it adds to an output within the declared length. -/
theorem decompressLoop_returns
    (hinterrupt : ∀ decoder limit, (zstd.read decoder limit).1 ≠ .interrupted) {out : List UInt8}
    (hout : out.length ≤ payloadLen) (hfuel : payloadLen < fuel + out.length) :
    (decompressLoop zstd payloadLen fuel decoder out).Returns := by
  induction fuel generalizing decoder out with
  | zero => omega
  | succ fuel ih =>
    have hnot := hinterrupt decoder decodeChunkBytes
    unfold decompressLoop
    split
    · split_ifs <;> nofun
    · rename_i byte chunk next hread
      split_ifs with hlarge
      · nofun
      · rw [not_lt, ← List.length_append] at hlarge
        apply ih hlarge
        rw [List.length_append, List.length_cons]
        omega
    · rename_i next hread
      rw [hread] at hnot
      exact absurd rfl hnot
    · nofun

/-- What the decoder produces passes the declared length by less than a chunk, and the input is
refused if it passes it at all. -/
theorem loopDecompressed_le (hread_le : ∀ decoder limit produced next,
      zstd.read decoder limit = (.bytes produced, next) → produced.length ≤ limit) (fuel : ℕ)
    (decoder : zstd.Decoder) (out : List UInt8) (hout : out.length ≤ payloadLen) :
    out.length + loopDecompressed zstd payloadLen fuel decoder out ≤ payloadLen + decodeChunkBytes ∧
      (payloadLen < out.length + loopDecompressed zstd payloadLen fuel decoder out →
        decompressLoop zstd payloadLen fuel decoder out = .err .decompressedTooLarge) := by
  induction fuel generalizing decoder out with
  | zero =>
    simp only [loopDecompressed]
    omega
  | succ fuel ih =>
    unfold loopDecompressed decompressLoop
    cases hread : zstd.read decoder decodeChunkBytes with
    | mk outcome next =>
      cases outcome with
      | bytes produced =>
        cases produced with
        | nil =>
          simp only
          omega
        | cons byte chunk =>
          have hchunk := hread_le _ _ _ _ hread
          by_cases hlarge : payloadLen < out.length + (byte :: chunk).length
          · simp only [hlarge, if_true]
            exact ⟨by omega, fun _ ↦ trivial⟩
          · rw [not_lt, ← List.length_append] at hlarge
            have hrest := ih next _ hlarge
            simp only [List.length_append] at hrest hlarge
            simp only [not_lt.mpr hlarge, if_false]
            rw [← Nat.add_assoc]
            exact hrest
      | interrupted => exact ih next out hout
      | failed =>
        simp only
        omega

/-! ### Decoding -/

/-- An envelope whose parts agree and are the whole input: the header is sealed over the body, the
payload has the declared length, and the body is the payload or one frame of it. -/
def Consistent (zstd : Zstd) (digest : Digest) (expected : PayloadKind)
    (bytes payload : List UInt8) : Prop :=
  ∃ header, Sealed digest expected bytes header ∧ payload.length = header.payloadLen ∧
    if header.flags = flagZstd then zstd.Frames header.body payload else payload = header.body

variable {expected : PayloadKind} {bytes : List UInt8}

theorem Sealed.declaredLen_eq (hdigest : ∀ front body, (digest front body).length = 32)
    {header : CheckedHeader} (hsealed : Sealed digest expected bytes header) :
    declaredLen bytes = header.payloadLen := by
  obtain ⟨-, -, -, -, hfield, -⟩ := fields_sealBody hdigest hsealed.bytes_eq
  have hlength := hsealed.length_eq hdigest
  rw [slice_eq_ok (Nat.le_add_right _ _) ?_] at hfield
  · rw [Result.ok.injEq, Nat.add_sub_cancel_left] at hfield
    rw [declaredLen, hfield, leValue_leBytes (hsealed.payload_le.trans_lt (by decide))]
  · rw [hlength]
    exact (by decide : payloadLenAt + 8 ≤ headerBytes).trans (Nat.le_add_right _ _)

section Decoding

variable (hdigest : ∀ front body, (digest front body).length = 32)
include hdigest

/-- Decoding returns a payload exactly on a consistent envelope of it. Assumes: digests of 32 bytes,
reads of a slice that are not interrupted, and fuel past the payload cap. -/
theorem decodeEnvelope_eq_ok_iff (hinterrupt : ∀ decoder limit,
      (zstd.read decoder limit).1 ≠ .interrupted) {fuel : ℕ} (hfuel : maxPayloadBytes < fuel)
    {expected : PayloadKind} {bytes payload : List UInt8} :
    decodeEnvelope zstd digest fuel expected bytes = .ok payload ↔
      Consistent zstd digest expected bytes payload := by
  simp only [decodeEnvelope, Result.bind_ok_iff, pure_eq, checkHeader_eq_ok_iff hdigest, Consistent]
  apply exists_congr
  intro header
  refine and_congr_right fun hsealed ↦ ?_
  by_cases hflag : header.flags = flagZstd
  · simp only [hflag, if_true, decompressBounded, openDecoder, Result.bind_eq_ok_iff,
      Result.okOr_eq_ok_iff, Zstd.Frames]
    constructor
    · rintro ⟨decoder, ⟨opened, hopened, hdecoder⟩, hloop⟩
      obtain ⟨tail, rfl, hstreams, hlength⟩ :=
        decompressLoop_eq_ok hinterrupt (Nat.zero_le _) hloop
      exact ⟨hlength, opened, decoder, hopened, hdecoder, hstreams⟩
    · rintro ⟨hlength, opened, decoder, hopened, hdecoder, hstreams⟩
      refine ⟨decoder, ⟨opened, hopened, hdecoder⟩, ?_⟩
      apply decompressLoop_of_streams [] hstreams hlength
      rw [hlength]
      exact hsealed.payload_le.trans_lt hfuel
  · simp only [hflag, if_false, Result.ok.injEq]
    constructor
    · rintro rfl
      have hconsistent := hsealed.consistent
      simp only [consistent, hflag, if_false, beq_iff_eq] at hconsistent
      exact ⟨hconsistent, rfl⟩
    · exact fun hpayload ↦ hpayload.2.symm

end Decoding

theorem returns_readU16 {index : ℕ} (hfits : index + 2 ≤ bytes.length) :
    (readU16 bytes index).Returns :=
  (returns_slice (Nat.le_add_right _ _) hfits).bind fun _ _ ↦ returns_ok _

theorem returns_readU64 {index : ℕ} (hfits : index + 8 ≤ bytes.length) :
    (readU64 bytes index).Returns :=
  (returns_slice (Nat.le_add_right _ _) hfits).bind fun _ _ ↦ returns_ok _

theorem checkHeader_returns : (checkHeader digest expected bytes).Returns := by
  simp only [checkHeader, bind_eq, pure_eq]
  refine returns_failIf.bind fun _ _ ↦ returns_failIf.bind fun _ hfrozen ↦ ?_
  rw [Result.failIf_eq_ok_iff, not_lt] at hfrozen
  have hearly : ∀ last, last ≤ frozenPrefixBytes → last ≤ bytes.length :=
    fun _ hlast ↦ hlast.trans hfrozen
  refine (returns_slice (Nat.zero_le _) (hearly _ (by decide))).bind fun magic _ ↦
    returns_failIf.bind fun _ _ ↦ ?_
  refine (returns_readU16 (hearly _ (by decide))).bind fun version _ ↦
    returns_failIf.bind fun _ _ ↦ returns_failIf.bind fun _ hheader ↦ ?_
  rw [Result.failIf_eq_ok_iff, not_lt] at hheader
  have hfits : ∀ last, last ≤ headerBytes → last ≤ bytes.length := fun _ hlast ↦ hlast.trans hheader
  refine (returns_readU16 (hfits _ (by decide))).bind fun flags _ ↦
    returns_failIf.bind fun _ _ ↦ ?_
  refine (returns_slice (by decide) (hfits _ (by decide))).bind fun kind _ ↦
    returns_failIf.bind fun _ _ ↦ ?_
  refine (returns_readU64 (hfits _ (by decide))).bind fun payloadLen _ ↦
    returns_failIf.bind fun _ _ ↦ ?_
  refine (returns_readU64 (hfits _ (by decide))).bind fun bodyLen _ ↦
    returns_failIf.bind fun _ _ ↦ returns_failIf.bind fun _ _ ↦
      returns_failIf.bind fun _ _ ↦ ?_
  refine (returns_slice hheader le_rfl).bind fun body _ ↦ ?_
  refine (returns_slice (Nat.zero_le _) (hfits _ (by decide))).bind fun front _ ↦ ?_
  refine (returns_slice (by decide) (hfits _ le_rfl)).bind fun stamp _ ↦ ?_
  exact returns_failIf.bind fun _ _ ↦ returns_ok _

/-- Decoding returns on every input. Assumes: reads of a slice that are not interrupted, and fuel
past the payload cap. -/
theorem decodeEnvelope_returns (hdigest : ∀ front body, (digest front body).length = 32)
    (hinterrupt : ∀ decoder limit, (zstd.read decoder limit).1 ≠ .interrupted)
    (hfuel : maxPayloadBytes < fuel) :
    (decodeEnvelope zstd digest fuel expected bytes).Returns := by
  refine checkHeader_returns.bind fun header hheader ↦ ?_
  have hsealed := (checkHeader_eq_ok_iff hdigest).mp hheader
  split_ifs with hflag
  · refine (returns_okOr.bind fun _ _ ↦ returns_okOr).bind fun decoder _ ↦ ?_
    apply decompressLoop_returns hinterrupt (Nat.zero_le _)
    exact hsealed.payload_le.trans_lt hfuel
  · nofun

/-- Decoding decompresses at most a chunk past the length the input declares, which is within the
cap, and refuses the input when it decompresses more than that length. -/
theorem decompressed_le (hdigest : ∀ front body, (digest front body).length = 32)
    (hread_le : ∀ decoder limit produced next,
      zstd.read decoder limit = (.bytes produced, next) → produced.length ≤ limit)
    (hsome : decompressed zstd digest fuel expected bytes ≠ 0) :
    declaredLen bytes ≤ maxPayloadBytes ∧
      decompressed zstd digest fuel expected bytes ≤ declaredLen bytes + decodeChunkBytes ∧
      (declaredLen bytes < decompressed zstd digest fuel expected bytes →
        decodeEnvelope zstd digest fuel expected bytes = .err .decompressedTooLarge) := by
  unfold decompressed at hsome ⊢
  unfold decodeEnvelope
  cases hheader : checkHeader digest expected bytes with
  | err error => exact absurd (by rw [hheader]) hsome
  | panic => exact absurd (by rw [hheader]) hsome
  | ok header =>
    have hsealed := (checkHeader_eq_ok_iff hdigest).mp hheader
    have hdeclared := hsealed.declaredLen_eq hdigest
    rw [hheader] at hsome
    simp only [bind_eq, ok_bind, decompressBounded] at hsome ⊢
    split_ifs at hsome ⊢ with hflag
    · cases hopen : openDecoder zstd header.body with
      | err error => exact absurd (by rw [hopen]) hsome
      | panic => exact absurd (by rw [hopen]) hsome
      | ok decoder =>
        have hloop := loopDecompressed_le hread_le fuel decoder []
          (Nat.zero_le header.payloadLen)
        simp only [List.length_nil, Nat.zero_add] at hloop
        rw [hdeclared]
        exact ⟨hsealed.payload_le, hloop⟩
    · exact absurd rfl hsome

/-! ### Encoding and decoding -/

/-- What the encoder writes is a consistent envelope of the payload, within the input cap. -/
theorem encodeEnvelope_consistent (hfaithful : zstd.Faithful)
    (hdigest : ∀ front body, (digest front body).length = 32) (kind : PayloadKind)
    {payload : List UInt8} (hpayload : payload.length ≤ maxPayloadBytes) :
    ∃ bytes, encodeEnvelope zstd digest kind payload = .ok bytes ∧
      bytes.length ≤ maxEnvelopeBytes ∧ Consistent zstd digest kind bytes payload := by
  obtain ⟨frame, hframe, hnonempty, hframes⟩ := hfaithful.compresses payload hpayload
  have hframeLength : 1 ≤ frame.length := List.length_pos_iff.mpr hnonempty
  simp only [encodeEnvelope, compress, hframe, Result.okOr, Result.failIf, not_lt.mpr hpayload,
    if_false, bind_eq, ok_bind, pure_eq]
  refine ⟨_, rfl, ?_, ?_⟩
  · rw [length_sealBody hdigest]
    apply Nat.add_le_add_left
    split_ifs with hshorter
    · exact hshorter.le.trans hpayload
    · exact hpayload
  · by_cases hshorter : frame.length < payload.length
    · simp only [hshorter, if_true]
      refine ⟨⟨flagZstd, payload.length, frame⟩, ⟨rfl, Or.inr rfl, hpayload, ?_⟩, rfl, ?_⟩
      · simp only [consistent, if_true, hframeLength, hshorter, decide_true, Bool.and_self]
      · rw [if_pos rfl]
        exact hframes
    · simp only [hshorter, if_false]
      refine ⟨⟨0, payload.length, payload⟩, ⟨rfl, Or.inl rfl, hpayload, ?_⟩, rfl, ?_⟩
      · exact beq_self_eq_true payload.length
      · rw [if_neg (show ¬(0 = flagZstd) by decide)]

theorem Sealed.digest_eq (hdigest : ∀ front body, (digest front body).length = 32)
    {header : CheckedHeader} (hsealed : Sealed digest expected bytes header) :
    header.body = bytes.drop headerBytes ∧ digest (bytes.take digestAt) (bytes.drop headerBytes) =
        (bytes.take headerBytes).drop digestAt := by
  have hfront := length_headerFront header.flags expected header.payloadLen header.body.length
  have hstamp := hdigest (headerFront header.flags expected header.payloadLen header.body.length)
    header.body
  have hbytes := hsealed.bytes_eq
  simp only [sealBody] at hbytes
  have htake : bytes.take digestAt =
      headerFront header.flags expected header.payloadLen header.body.length := by
    rw [hbytes, ← hfront, List.take_left]
  rw [← List.append_assoc] at hbytes
  have hwidth : (headerFront header.flags expected header.payloadLen header.body.length ++
      digest (headerFront header.flags expected header.payloadLen header.body.length)
        header.body).length = headerBytes := by
    rw [List.length_append, hfront, hstamp]
    rfl
  have hdrop : bytes.drop headerBytes = header.body := by rw [hbytes, ← hwidth, List.drop_left]
  have hheader := congrArg (List.take headerBytes) hbytes
  rw [← hwidth, List.take_left, hwidth] at hheader
  rw [hdrop, htake, hheader, ← hfront, List.drop_left]
  exact ⟨rfl, rfl⟩

/-- The save envelope. Every payload within the cap is encoded within the input cap and decoded
again. Decoding returns on every input; it decompresses at most one chunk past the declared length,
which is within the cap, and refuses what passes that length; it returns a payload exactly on a
consistent envelope that is the whole input. Two inputs with one header that both decode hold bodies
of the digest the header names, and their payloads differ only if the bodies collide. Assumes: a
faithful compression library, digests of 32 bytes, and fuel past the payload cap. -/
theorem envelope_format (hfaithful : zstd.Faithful)
    (hdigest : ∀ front body, (digest front body).length = 32) {fuel : ℕ}
    (hfuel : maxPayloadBytes < fuel) : (∀ kind payload, payload.length ≤ maxPayloadBytes →
      ∃ bytes, encodeEnvelope zstd digest kind payload = .ok bytes ∧
        bytes.length ≤ maxEnvelopeBytes ∧
        decodeEnvelope zstd digest fuel kind bytes = .ok payload) ∧
    (∀ expected bytes, (decodeEnvelope zstd digest fuel expected bytes).Returns ∧
      (decompressed zstd digest fuel expected bytes = 0 ∨ declaredLen bytes ≤ maxPayloadBytes ∧
        decompressed zstd digest fuel expected bytes ≤ declaredLen bytes + decodeChunkBytes ∧
        (declaredLen bytes < decompressed zstd digest fuel expected bytes →
          decodeEnvelope zstd digest fuel expected bytes = .err .decompressedTooLarge))) ∧
    (∀ expected bytes payload, decodeEnvelope zstd digest fuel expected bytes = .ok payload ↔
      Consistent zstd digest expected bytes payload) ∧
    (∀ expected first second payload other, first.take headerBytes = second.take headerBytes →
      decodeEnvelope zstd digest fuel expected first = .ok payload →
      decodeEnvelope zstd digest fuel expected second = .ok other →
      digest (first.take digestAt) (first.drop headerBytes) =
          (first.take headerBytes).drop digestAt ∧
        digest (first.take digestAt) (second.drop headerBytes) =
          (first.take headerBytes).drop digestAt ∧
        (payload = other ∨ first.drop headerBytes ≠ second.drop headerBytes)) := by
  have haccepts : ∀ expected bytes payload,
      decodeEnvelope zstd digest fuel expected bytes = .ok payload ↔
        Consistent zstd digest expected bytes payload :=
    fun _ _ _ ↦ decodeEnvelope_eq_ok_iff hdigest hfaithful.not_interrupted hfuel
  refine ⟨fun kind payload hpayload ↦ ?_, fun expected bytes ↦ ⟨?_, ?_⟩, haccepts, ?_⟩
  · obtain ⟨bytes, hbytes, hcap, hconsistent⟩ :=
      encodeEnvelope_consistent hfaithful hdigest kind hpayload
    exact ⟨bytes, hbytes, hcap, (haccepts _ _ _).mpr hconsistent⟩
  · exact decodeEnvelope_returns hdigest hfaithful.not_interrupted hfuel
  · by_cases hzero : decompressed zstd digest fuel expected bytes = 0
    · exact Or.inl hzero
    · exact Or.inr (decompressed_le hdigest hfaithful.read_le hzero)
  · intro expected first second payload other hheader hpayload hother
    obtain ⟨_, hsealed, -, -⟩ := (haccepts _ _ _).mp hpayload
    obtain ⟨_, hsealedOther, -, -⟩ := (haccepts _ _ _).mp hother
    have hdigestFirst := (hsealed.digest_eq hdigest).2
    have hdigestSecond := (hsealedOther.digest_eq hdigest).2
    have hfront : first.take digestAt = second.take digestAt := by
      have htake := congrArg (List.take digestAt) hheader
      rw [List.take_take, List.take_take, min_eq_left (by decide)] at htake
      exact htake
    refine ⟨hdigestFirst, ?_, ?_⟩
    · rw [hfront, hheader]
      exact hdigestSecond
    · by_cases hbody : first.drop headerBytes = second.drop headerBytes
      · left
        have hsame : first = second := by
          rw [← List.take_append_drop headerBytes first, hheader, hbody, List.take_append_drop]
        rw [hsame, hother] at hpayload
        exact (Result.ok.inj hpayload).symm
      · exact Or.inr hbody

/-! ### A frame longer than it declares -/

/-- The bytes of `abc`, and the frame the compressor makes of them. -/
def abcPayload : List UInt8 := [97, 98, 99]

/-- The compressor's frame of `abc`: one raw block. -/
def abcFrame : List UInt8 := [40, 181, 47, 253, 32, 3, 25, 0, 0, 97, 98, 99]

/-- A frame of one run-length block: two hundred times the byte `a`. -/
def runFrame : List UInt8 := [40, 181, 47, 253, 32, 200, 67, 6, 0, 97]

/-- A library that treats the two frames above as the compression library does, and stores every
other payload behind a zero byte. A decoder is the output still to come and the slice unread. -/
def sampleZstd : Zstd where
  Decoder := List UInt8 × List UInt8
  compress := fun _ _ _ _ payload ↦ some (if payload = abcPayload then abcFrame else 0 :: payload)
  withBuffer := fun body ↦
    if body = abcFrame then some (abcPayload, [])
    else if body = runFrame then some (List.replicate 200 97, [])
    else match body with
      | 0 :: payload => some (payload, [])
      | _ => none
  windowLogMax := fun decoder _ ↦ some decoder
  read := fun decoder limit ↦
    (.bytes (decoder.1.take limit), (decoder.1.drop limit, decoder.2))
  finish := fun decoder ↦ decoder.2

theorem streams_sampleZstd (output rest : List UInt8) :
    Streams sampleZstd (output, rest) output rest := by
  induction hlength : output.length using Nat.strong_induction_on generalizing output with
  | _ length ih =>
    cases output with
    | nil =>
      have hread : sampleZstd.read ([], rest) decodeChunkBytes = (.bytes [], ([], rest)) := rfl
      exact .done hread
    | cons byte tail =>
      have hread : sampleZstd.read (byte :: tail, rest) decodeChunkBytes =
          (.bytes (byte :: tail.take 65535), (tail.drop 65535, rest)) := rfl
      have hshorter : (tail.drop 65535).length < length := by
        rw [List.length_drop, ← hlength, List.length_cons]
        omega
      have hstreams := Streams.more hread (ih _ hshorter (tail.drop 65535) rfl)
      rw [List.cons_append, List.take_append_drop] at hstreams
      exact hstreams

theorem faithful_sampleZstd : sampleZstd.Faithful where
  compresses := by
    intro payload _
    by_cases habc : payload = abcPayload
    · refine ⟨abcFrame, ?_, nofun, (abcPayload, []), (abcPayload, []), rfl, rfl, ?_⟩
      · rw [habc]
        rfl
      · rw [habc]
        exact streams_sampleZstd _ _
    · refine ⟨0 :: payload, ?_, nofun, (payload, []), (payload, []), ?_, rfl,
        streams_sampleZstd _ _⟩
      · show some (if payload = abcPayload then abcFrame else 0 :: payload) = _
        rw [if_neg habc]
      · show (if 0 :: payload = abcFrame then some (abcPayload, []) else
          if 0 :: payload = runFrame then some (List.replicate 200 97, []) else
            some (payload, [])) = _
        rw [if_neg (by simp [abcFrame]), if_neg (by simp [runFrame])]
        rfl
  read_le := by
    intro decoder limit produced next hread
    cases hread
    exact List.length_take_le _ _
  not_interrupted := fun _ _ ↦ nofun

/-- `HOST_SAVE_KIND`: the bytes of `HOSTCKPT`. -/
def hostSaveKind : PayloadKind := ⟨[72, 79, 83, 84, 67, 75, 80, 84], rfl, rfl⟩

/-- The digest of the front of a host save of `abc` and of its body, under the envelope's context.
-/
def abcStamp : List UInt8 :=
  [138, 86, 65, 135, 167, 128, 115, 198, 37, 30, 218, 155, 140, 28, 252, 146, 160, 134, 40, 4, 91,
    2, 229, 192, 182, 41, 168, 56, 94, 229, 133, 202]

/-- The format on a payload whose frame is longer than it, which is stored raw. -/
theorem envelope_format_abc :
    ∃ bytes, encodeEnvelope sampleZstd (fun _ _ ↦ abcStamp) hostSaveKind abcPayload = .ok bytes ∧
      bytes.length ≤ maxEnvelopeBytes ∧
      decodeEnvelope sampleZstd (fun _ _ ↦ abcStamp) (maxPayloadBytes + 1) hostSaveKind bytes =
        .ok abcPayload :=
  (envelope_format faithful_sampleZstd (fun _ _ ↦ rfl : ∀ _ _, abcStamp.length = 32)
    (Nat.lt_succ_self maxPayloadBytes)).1 hostSaveKind abcPayload (by decide)

/-- The digest of the front and body of `runEnvelope`, under the envelope's context. -/
def runStamp : List UInt8 :=
  [204, 94, 218, 28, 16, 226, 32, 180, 74, 88, 149, 62, 249, 117, 172, 80, 193, 66, 85, 25, 223,
    210, 34, 250, 59, 156, 58, 141, 122, 243, 72, 28]

/-- The run-length frame under a header that declares a hundred bytes. -/
def runEnvelope : List UInt8 :=
  headerFront flagZstd hostSaveKind 100 runFrame.length ++ (runStamp ++ runFrame)

/-- Decoding can decompress more than the declared length before it refuses the input: the two
hundred bytes of the frame come out of one read. -/
theorem decompresses_past_declared : ¬∀ (zstd : Zstd) (digest : Digest), zstd.Faithful →
    (∀ front body, (digest front body).length = 32) → ∀ fuel expected bytes,
      decompressed zstd digest fuel expected bytes ≤ declaredLen bytes := by
  intro hclaim
  have hle := hclaim sampleZstd (fun _ _ ↦ runStamp) faithful_sampleZstd (fun _ _ ↦ rfl) 1
    hostSaveKind runEnvelope
  have hproduced : decompressed sampleZstd (fun _ _ ↦ runStamp) 1 hostSaveKind runEnvelope = 200 :=
    by decide +kernel
  have hdeclared : declaredLen runEnvelope = 100 := by decide +kernel
  omega

end Crpg.Persist
