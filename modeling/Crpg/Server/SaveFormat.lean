import Crpg.Persist.EnvelopeFormat
import Crpg.Server.Save

/-!
# What a host save holds

`hostSaveParts_eq_ok_iff` says that the header decoder accepts exactly what the encoder writes for
the expected identity and some engine text, and `hostSaveParts_returns` that it reads inside the
payload on every input. A checkpoint can be written exactly when it and the header fit the payload
cap; the checkpoint's own cap is the same number, so the longest checkpoints cannot
(`checkpoint_at_cap_unsaved`).
-/

set_option autoImplicit false

namespace Crpg.Server

open Crpg.Core Crpg.Lib Crpg.Net Crpg.Persist Crpg.Sim
open Result (bind_eq err_bind failIf_eq_ok_iff ok_bind pure_eq returns_failIf)
open List (append_assoc append_inj cons_append length_append length_cons)

/-! ### The header -/

theorem length_le_of_valid {text : List UInt8} (hvalid : validVersionText text = true) :
    text.length ≠ 0 ∧ text.length ≤ maxVersionTextBytes := by
  simp only [validVersionText, Bool.and_eq_true, Bool.not_eq_true', decide_eq_true_eq,
    List.isEmpty_eq_false_iff] at hvalid
  exact ⟨fun hlength ↦ hvalid.1.1 (List.length_eq_zero_iff.mp hlength), hvalid.1.2⟩

theorem length_hostSaveHeader (engine : EngineVersion) (identity : SaveIdentity) :
    (hostSaveHeader engine identity).length = headerLen engine identity := by
  simp only [hostSaveHeader, prefixedText, length_append, length_leBytes, length_beBytes,
    length_cons, headerLen, hostSaveFixedBytes]
  omega

variable {identity : SaveIdentity} {engine : EngineVersion} {checkpoint payload : List UInt8}

theorem headerLen_le (engine : EngineVersion)
    (hidentity : validVersionText identity.campaignVersion = true) :
    headerLen engine identity ≤ 150 := by
  have hcampaign := (length_le_of_valid hidentity).2
  have hengine := (length_le_of_valid engine.valid).2
  have hmax : maxVersionTextBytes = 64 := rfl
  have hfixed : hostSaveFixedBytes = 22 := rfl
  unfold headerLen
  omega

/-- A checkpoint is written exactly when the identity is valid and it fits the cap with its header;
a longer one is refused as too large. -/
theorem encodeHostSave_eq (engine : EngineVersion)
    (hidentity : validVersionText identity.campaignVersion = true) (checkpoint : List UInt8) :
    encodeHostSave engine identity checkpoint =
      if headerLen engine identity + checkpoint.length ≤ maxPayloadBytes then
        .ok (hostSaveHeader engine identity ++ checkpoint) else .err (.tooLarge
        (saturatingAdd usizeMax (headerLen engine identity) checkpoint.length)) := by
  have hheader := headerLen_le engine hidentity
  have hmax : maxPayloadBytes = 16777216 := rfl
  simp only [encodeHostSave, Result.failIf, Result.panicIf, hidentity, Bool.true_eq_false, if_false,
    bind_eq, ok_bind, pure_eq,
    if_neg (show ¬maxPayloadBytes < headerLen engine identity by omega)]
  by_cases hfits : headerLen engine identity + checkpoint.length ≤ maxPayloadBytes
  · rw [if_neg (by omega), if_pos hfits, ok_bind]
  · rw [if_pos (by omega), if_neg hfits, err_bind]

theorem encodeHostSave_eq_ok_iff : encodeHostSave engine identity checkpoint = .ok payload ↔
      validVersionText identity.campaignVersion = true ∧ payload.length ≤ maxPayloadBytes ∧
        payload = hostSaveHeader engine identity ++ checkpoint := by
  by_cases hidentity : validVersionText identity.campaignVersion = true
  · rw [encodeHostSave_eq engine hidentity]
    have hlength := length_hostSaveHeader engine identity
    constructor
    · intro hencode
      split_ifs at hencode with hfits
      cases hencode
      rw [length_append, hlength]
      exact ⟨hidentity, hfits, rfl⟩
    · rintro ⟨-, hfits, rfl⟩
      rw [length_append, hlength] at hfits
      rw [if_pos hfits]
  · refine iff_of_false ?_ fun hall ↦ hidentity hall.1
    rw [Bool.not_eq_true] at hidentity
    simp only [encodeHostSave, Result.failIf, hidentity, if_true, bind_eq, err_bind]
    intro h
    cases h

theorem toNat_length_of_valid {text : List UInt8} (hvalid : validVersionText text = true) :
    (UInt8.ofNat text.length).toNat = text.length := by
  have hlength := (length_le_of_valid hvalid).2
  have hmax : maxVersionTextBytes = 64 := rfl
  rw [UInt8.toNat_ofNat']
  omega

/-! ### Decoding -/

/-- The decoder reads back what the encoder writes. -/
theorem hostSaveParts_of_encode
    (hencode : encodeHostSave engine identity checkpoint = .ok payload) :
    hostSaveParts payload identity = .ok (engine.text, checkpoint) := by
  obtain ⟨hidentity, hfits, hpayload⟩ := encodeHostSave_eq_ok_iff.mp hencode
  have hlength : payload.length = headerLen engine identity + checkpoint.length := by
    rw [hpayload, length_append, length_hostSaveHeader]
  have hcv := length_le_of_valid hidentity
  have hev := length_le_of_valid engine.valid
  have hcvByte := toNat_length_of_valid hidentity
  have hevByte := toNat_length_of_valid engine.valid
  let cv := identity.campaignVersion
  let ev := engine.text
  let id := beBytes 16 identity.campaignId.val
  let front := leBytes 4 hostSaveVersion
  have hid : id.length = 16 := length_beBytes ..
  have hfields : payload = front ++ (id ++ (UInt8.ofNat cv.length ::
      (cv ++ (UInt8.ofNat ev.length :: (ev ++ checkpoint))))) := by
    rw [hpayload]
    simp only [hostSaveHeader, prefixedText, append_assoc, cons_append, cv, ev, id, front]
  have hversion : (slice payload 0 campaignIdAt : Result SaveError _) = .ok front :=
    slice_of_append [] front _ hfields rfl rfl
  have hcampaign : (slice payload campaignIdAt cvLenAt : Result SaveError _) = .ok id :=
    slice_of_append front id _ hfields rfl (by rw [hid]; rfl)
  have hcvLen : (byteAt payload cvLenAt : Result SaveError _) = .ok (UInt8.ofNat cv.length) := by
    apply byteAt_of_append (front ++ id) _ (cv ++ (UInt8.ofNat ev.length :: (ev ++ checkpoint)))
    · rw [hfields, append_assoc]
    · rw [length_append, hid]
      rfl
  have hcvText : (slice payload cvAt (cvAt + cv.length) : Result SaveError _) = .ok cv := by
    refine slice_of_append (front ++ id ++ [UInt8.ofNat cv.length]) cv
      (UInt8.ofNat ev.length :: (ev ++ checkpoint)) ?_ ?_ rfl
    · simp only [hfields, append_assoc, List.singleton_append]
    · rw [length_append, length_append, hid]
      rfl
  have hevLen : (byteAt payload (cvAt + cv.length) : Result SaveError _) =
      .ok (UInt8.ofNat ev.length) := by
    apply byteAt_of_append (front ++ id ++ (UInt8.ofNat cv.length :: cv)) _ (ev ++ checkpoint)
    · simp only [hfields, append_assoc, cons_append]
    · rw [length_append, length_append, hid, length_cons, length_leBytes, cvAt]
      omega
  have hevText : (slice payload (cvAt + cv.length + 1) (cvAt + cv.length + 1 + ev.length) :
      Result SaveError _) = .ok ev := by
    refine slice_of_append (front ++ id ++ (UInt8.ofNat cv.length :: cv) ++ [UInt8.ofNat ev.length])
      ev checkpoint ?_ ?_ rfl
    · simp only [hfields, append_assoc, cons_append]
      rfl
    · simp only [length_append, hid, length_cons, length_leBytes, cvAt, front, List.length_nil]
      omega
  have hrest : (slice payload (cvAt + cv.length + 1 + ev.length) payload.length :
      Result SaveError _) = .ok checkpoint := by
    refine slice_of_append (hostSaveHeader engine identity) checkpoint [] ?_ ?_ ?_
    · rw [List.append_nil, hpayload]
    · rw [length_hostSaveHeader]
      simp only [headerLen, hostSaveFixedBytes, cvAt, cv, ev]
      omega
    · rw [hlength]
      simp only [headerLen, hostSaveFixedBytes, cvAt, cv, ev]
      omega
  have hnumber : leValue front = hostSaveVersion := leValue_leBytes (by decide)
  have hident : beValue id = identity.campaignId.val := beValue_beBytes identity.campaignId.isLt
  simp only [headerLen, hostSaveFixedBytes] at hlength
  have hmax : maxVersionTextBytes = 64 := rfl
  simp only [cv, ev] at hcvText hevLen hevText hrest hcvLen
  simp only [hostSaveParts, Result.failIf, bind_eq, pure_eq, hidentity,
    Bool.true_eq_false, if_false, ok_bind, not_lt.mpr hfits, hversion, hnumber, hcvLen,
    hcvByte, hcvText, hevLen, hevByte, hevText, engine.valid, hcampaign, hident, hrest, ne_eq,
    not_true_eq_false, hcv.1, hev.1, not_lt.mpr hcv.2, not_lt.mpr hev.2, or_self,
    if_neg (show ¬payload.length < campaignIdAt by unfold campaignIdAt; omega),
    if_neg (show ¬payload.length < cvAt by unfold cvAt; omega),
    if_neg (show ¬payload.length < cvAt + identity.campaignVersion.length + 1 by
      unfold cvAt; omega),
    if_neg (show ¬payload.length < cvAt + identity.campaignVersion.length + 1 +
      engine.text.length by unfold cvAt; omega)]

theorem encode_of_hostSaveParts {engineVersion : List UInt8} {expected : SaveIdentity}
    (hparts : hostSaveParts payload expected = .ok (engineVersion, checkpoint)) :
    ∃ engine : EngineVersion, engine.text = engineVersion ∧
      encodeHostSave engine expected checkpoint = .ok payload := by
  simp only [hostSaveParts, Result.bind_ok_iff, Result.pure_ok_iff, failIf_eq_ok_iff, exists_const,
    not_lt, ne_eq, not_not, Bool.not_eq_false, Prod.mk.injEq] at hparts
  obtain ⟨hidentity, hfits, -, version, hversion, hnumber, -, cvByte, hcvByte, -, -, cv, hcv, -,
    evByte, hevByte, -, -, ev, hev, hvalid, id, hid, hident, hcampaign, rest, hrest, hengine,
    hcheckpoint⟩ := hparts
  subst hcampaign hengine hcheckpoint
  refine ⟨⟨ev, hvalid⟩, rfl, encodeHostSave_eq_ok_iff.mpr ⟨hidentity, hfits, ?_⟩⟩
  obtain ⟨hversionAt, hversionLength⟩ := append_of_slice hversion
  obtain ⟨hidAt, hidLength⟩ := append_of_slice hid
  obtain ⟨hcvAt, hcvLength⟩ := append_of_slice hcv
  obtain ⟨hevAt, hevLength⟩ := append_of_slice hev
  obtain ⟨hrestAt, -⟩ := append_of_slice hrest
  rw [Nat.add_sub_cancel_left] at hcvLength hevLength
  have hcvOf : UInt8.ofNat expected.campaignVersion.length = cvByte := by
    rw [hcvLength, UInt8.ofNat_toNat]
  have hevOf : UInt8.ofNat ev.length = evByte := by rw [hevLength, UInt8.ofNat_toNat]
  have hversionOf : version = leBytes 4 hostSaveVersion := by
    rw [← hnumber]
    exact eq_leBytes_of_length hversionLength
  have hidOf : id = beBytes 16 expected.campaignId.val := by
    rw [← hident]
    exact eq_beBytes_of_length hidLength
  calc payload = payload.drop 0 := rfl
    _ = version ++ (id ++ (cvByte :: (expected.campaignVersion ++
          (evByte :: (ev ++ (rest ++ payload.drop payload.length)))))) := by
      rw [hversionAt, hidAt, cons_of_byteAt hcvByte]
      show version ++ (id ++ (cvByte :: payload.drop cvAt)) = _
      rw [hcvAt, cons_of_byteAt hevByte, hevAt, hrestAt]
    _ = hostSaveHeader ⟨ev, hvalid⟩ expected ++ rest := by
      rw [List.drop_length, List.append_nil, hversionOf, hidOf, ← hcvOf, ← hevOf]
      simp only [hostSaveHeader, prefixedText, append_assoc, cons_append]

/-- The header decoder reads inside the payload. -/
theorem hostSaveParts_returns (payload : List UInt8) (expected : SaveIdentity) :
    (hostSaveParts payload expected).Returns := by
  simp only [hostSaveParts, bind_eq, pure_eq]
  refine returns_failIf.bind fun _ _ ↦ returns_failIf.bind fun _ _ ↦
    returns_failIf.bind fun _ hfrozen ↦ ?_
  rw [failIf_eq_ok_iff, not_lt] at hfrozen
  refine (returns_slice (Nat.zero_le _) hfrozen).bind fun _ _ ↦
    returns_failIf.bind fun _ _ ↦ returns_failIf.bind fun _ hcv ↦ ?_
  rw [failIf_eq_ok_iff, not_lt] at hcv
  refine (returns_byteAt (hcv : cvLenAt + 1 ≤ payload.length)).bind fun cvByte _ ↦
    returns_failIf.bind fun _ _ ↦ returns_failIf.bind fun _ hcvEnd ↦ ?_
  rw [failIf_eq_ok_iff, not_lt] at hcvEnd
  refine (returns_slice (Nat.le_add_right _ _) (Nat.le_of_succ_le hcvEnd)).bind fun _ _ ↦
    returns_failIf.bind fun _ _ ↦ ?_
  refine (returns_byteAt hcvEnd).bind fun evByte _ ↦
    returns_failIf.bind fun _ _ ↦ returns_failIf.bind fun _ hends ↦ ?_
  rw [failIf_eq_ok_iff, not_lt] at hends
  refine (returns_slice (Nat.le_add_right _ _) hends).bind fun _ _ ↦
    returns_failIf.bind fun _ _ ↦ ?_
  refine (returns_slice (by decide) ((Nat.le_succ cvLenAt).trans hcv)).bind fun _ _ ↦
    returns_failIf.bind fun _ _ ↦ returns_failIf.bind fun _ _ ↦ ?_
  exact (returns_slice hends le_rfl).bind fun _ _ ↦ Result.returns_ok _

theorem encodeHostSave_injective {other : EngineVersion} {found : SaveIdentity}
    {rest : List UInt8} (hencode : encodeHostSave engine identity checkpoint = .ok payload)
    (hother : encodeHostSave other found rest = .ok payload) :
    identity = found ∧ engine.text = other.text ∧ checkpoint = rest := by
  obtain ⟨hidentity, -, hpayload⟩ := encodeHostSave_eq_ok_iff.mp hencode
  obtain ⟨hfound, -, hsame⟩ := encodeHostSave_eq_ok_iff.mp hother
  have hfields := hpayload.symm.trans hsame
  simp only [hostSaveHeader, prefixedText, append_assoc, cons_append] at hfields
  obtain ⟨-, hfields⟩ := append_inj hfields rfl
  obtain ⟨hid, hfields⟩ := append_inj hfields (by rw [length_beBytes, length_beBytes])
  obtain ⟨hcvByte, hfields⟩ := List.cons.inj hfields
  have hcvLength := congrArg UInt8.toNat hcvByte
  rw [toNat_length_of_valid hidentity, toNat_length_of_valid hfound] at hcvLength
  obtain ⟨hcv, hfields⟩ := append_inj hfields hcvLength
  obtain ⟨hevByte, hfields⟩ := List.cons.inj hfields
  have hevLength := congrArg UInt8.toNat hevByte
  rw [toNat_length_of_valid engine.valid, toNat_length_of_valid other.valid] at hevLength
  obtain ⟨hev, hrest⟩ := append_inj hfields hevLength
  have hvalue : identity.campaignId.val = found.campaignId.val := by
    have hvalues := congrArg beValue hid
    rw [beValue_beBytes identity.campaignId.isLt, beValue_beBytes found.campaignId.isLt] at hvalues
    exact hvalues
  refine ⟨?_, hev, hrest⟩
  cases identity
  cases found
  simp only [SaveIdentity.mk.injEq]
  exact ⟨Fin.ext hvalue, hcv⟩

/-! ### Host saves -/

section Loading

variable {Restored : Type} (loadCheckpoint : List UInt8 → ℕ → ℕ → Result CheckpointError Restored)

def loaded (engineVersion checkpoint : List UInt8) (newIncarnation nowMs : ℕ) :
    Result SaveError (LoadedSave Restored) :=
  ((loadCheckpoint checkpoint newIncarnation nowMs).mapErr SaveError.checkpoint).bind fun host ↦
    .ok ⟨host, engineVersion⟩

theorem decodeHostSave_cases (payload : List UInt8) (expected : SaveIdentity) :
    (∃ error, ∀ newIncarnation nowMs,
      decodeHostSave loadCheckpoint payload expected newIncarnation nowMs = .err error) ∨
    ∃ engine checkpoint, encodeHostSave engine expected checkpoint = .ok payload ∧
      ∀ newIncarnation nowMs, decodeHostSave loadCheckpoint payload expected newIncarnation nowMs =
          loaded loadCheckpoint engine.text checkpoint newIncarnation nowMs := by
  cases hparts : hostSaveParts payload expected with
  | err error =>
    left
    refine ⟨error, fun newIncarnation nowMs ↦ ?_⟩
    simp only [decodeHostSave, hparts, bind_eq, err_bind]
  | panic => exact absurd hparts (hostSaveParts_returns payload expected)
  | ok parts =>
    right
    obtain ⟨engine, hengine, hencode⟩ := encode_of_hostSaveParts hparts
    refine ⟨engine, parts.2, hencode, fun newIncarnation nowMs ↦ ?_⟩
    simp only [decodeHostSave, hparts, bind_eq, ok_bind, loaded, hengine, pure_eq]

/-- What the encoder writes is read back: the checkpoint it was given is loaded, with the engine's
text. -/
theorem decodeHostSave_of_encode {engine : EngineVersion} {identity : SaveIdentity}
    {checkpoint payload : List UInt8}
    (hencode : encodeHostSave engine identity checkpoint = .ok payload) (newIncarnation nowMs : ℕ) :
    decodeHostSave loadCheckpoint payload identity newIncarnation nowMs =
      loaded loadCheckpoint engine.text checkpoint newIncarnation nowMs := by
  simp only [decodeHostSave, hostSaveParts_of_encode hencode, bind_eq, ok_bind, loaded, pure_eq]

theorem decodeHostSave_of_other {engine : EngineVersion} {identity other : SaveIdentity}
    {checkpoint payload : List UInt8}
    (hencode : encodeHostSave engine identity checkpoint = .ok payload) (hother : other ≠ identity) :
    ∃ error, ∀ newIncarnation nowMs,
      decodeHostSave loadCheckpoint payload other newIncarnation nowMs = .err error := by
  obtain hrefused | ⟨_, _, hfound, -⟩ := decodeHostSave_cases loadCheckpoint payload other
  · exact hrefused
  · exact absurd (encodeHostSave_injective hfound hencode).1 hother

/-- Host saves. A saved checkpoint can be written under an admissible identity exactly when it fits
the payload cap with its header, and is refused as too large otherwise. What is written is read
back, under its identity alone, through the envelope too. Every payload is refused, or it is what
the encoder writes of the identity, engine text and checkpoint that are read. Assumes: a faithful
compression library, digests of 32 bytes, and fuel past the payload cap. -/
theorem host_saves (toVec : CheckpointOut → Option (List UInt8)) {zstd : Zstd} {digest : Digest}
    (hfaithful : zstd.Faithful) (hdigest : ∀ front body, (digest front body).length = 32) {fuel : ℕ}
    (hfuel : maxPayloadBytes < fuel) :
    (∀ host bytes engine identity, saveCheckpoint toVec host = .ok bytes →
      validVersionText identity.campaignVersion = true →
        ((∃ payload, encodeHostSave engine identity bytes = .ok payload) ↔
          headerLen engine identity + bytes.length ≤ maxPayloadBytes) ∧
        (maxPayloadBytes < headerLen engine identity + bytes.length →
          encodeHostSave engine identity bytes = .err (.tooLarge
            (saturatingAdd usizeMax (headerLen engine identity) bytes.length))) ∧
        headerLen engine identity ≤ 150) ∧ (∀ engine identity checkpoint payload,
      encodeHostSave engine identity checkpoint = .ok payload → (∀ newIncarnation nowMs,
          decodeHostSave loadCheckpoint payload identity newIncarnation nowMs =
            loaded loadCheckpoint engine.text checkpoint newIncarnation nowMs) ∧
        (∀ other, other ≠ identity → ∃ error, ∀ newIncarnation nowMs,
          decodeHostSave loadCheckpoint payload other newIncarnation nowMs = .err error) ∧
        ∃ envelope, encodeEnvelope zstd digest hostSaveKind payload = .ok envelope ∧
          decodeEnvelope zstd digest fuel hostSaveKind envelope = .ok payload) ∧ ∀ payload expected,
      (∃ error, ∀ newIncarnation nowMs,
        decodeHostSave loadCheckpoint payload expected newIncarnation nowMs = .err error) ∨
      ∃ engine checkpoint, encodeHostSave engine expected checkpoint = .ok payload ∧
        ∀ newIncarnation nowMs,
          decodeHostSave loadCheckpoint payload expected newIncarnation nowMs =
            loaded loadCheckpoint engine.text checkpoint newIncarnation nowMs := by
  refine ⟨fun host bytes engine identity _ hidentity ↦ ⟨?_, fun hlong ↦ ?_,
    headerLen_le engine hidentity⟩, fun engine identity checkpoint payload hencode ↦ ⟨?_, ?_, ?_⟩,
    decodeHostSave_cases loadCheckpoint⟩
  · rw [encodeHostSave_eq engine hidentity]
    by_cases hfits : headerLen engine identity + bytes.length ≤ maxPayloadBytes
    · rw [if_pos hfits]
      exact iff_of_true ⟨_, rfl⟩ hfits
    · rw [if_neg hfits]
      exact iff_of_false nofun hfits
  · rw [encodeHostSave_eq engine hidentity, if_neg (not_le.mpr hlong)]
  · exact decodeHostSave_of_encode loadCheckpoint hencode
  · exact fun other hother ↦ decodeHostSave_of_other loadCheckpoint hencode hother
  · obtain ⟨envelope, henvelope, -, hconsistent⟩ := encodeEnvelope_consistent hfaithful hdigest
      hostSaveKind (encodeHostSave_eq_ok_iff.mp hencode).2.1
    exact ⟨envelope, henvelope, (decodeEnvelope_eq_ok_iff hdigest hfaithful.not_interrupted
      hfuel).mpr hconsistent⟩

end Loading

/-! ### A checkpoint at its cap -/

/-- An idle host whose world has interned one stat name of so many characters. -/
def namedHost (length : ℕ) : Host :=
  .assemble ⟨.v1, 1⟩ { HistoryWorld.new 0 with
    world := { World.new 0 with
      interners := ⟨⟨[String.ofList (List.replicate length 'a')], List.nodup_singleton _⟩, .new⟩ } }
    0

def asciiBytes (text : String) : List UInt8 := text.toList.map fun char ↦ UInt8.ofNat char.toNat

/-- The JSON of a named host's checkpoint before the name. -/
def checkpointFront : List UInt8 := asciiBytes
  "\x7b\"version\":1,\"incarnation\":1,\"protocol\":1,\"server_tick\":0," ++ asciiBytes
  "\"history\":\x7b\"version\":1,\"world\":\x7b\"entities\":\x7b\"slots\":[],\"free\":[]\x7d," ++
  asciiBytes "\"transforms\":[],\"timeline\":[],\"events\":\x7b\"envelopes\":[],\"next_seq\":0\x7d,"
  ++ asciiBytes
  "\"rng\":\x7b\"seed\":0,\"streams\":\x7b\x7d\x7d,\"tick\":0,\"interners\":\x7b\"stats\":[\""

/-- The JSON of a named host's checkpoint after the name. -/
def checkpointBack : List UInt8 := asciiBytes
  "\"],\"tags\":[]\x7d\x7d,\"acknowledged\":0,\"next_seq\":1,\"pending\":[]\x7d," ++ asciiBytes
  "\"captured\":[],\"capture_acknowledged\":0\x7d"

/-- A writer that gives the named hosts the bytes of their JSON. -/
def namedToVec (out : CheckpointOut) : Option (List UInt8) :=
  match out.history.world.interners.stats.strings with
  | [name] => some (checkpointFront ++ (asciiBytes name ++ checkpointBack))
  | _ => none

theorem saveCheckpoint_namedHost {length : ℕ} (hlength : length ≤ 16776863) :
    ∃ bytes, saveCheckpoint namedToVec (namedHost length) = .ok bytes ∧
      bytes.length = 353 + length := by
  have hfront : checkpointFront.length = 255 := by decide +kernel
  have hback : checkpointBack.length = 98 := by decide +kernel
  have hname : (asciiBytes (String.ofList (List.replicate length 'a'))).length = length := by
    rw [asciiBytes, List.length_map, String.toList_ofList, List.length_replicate]
  have hmax : maxCheckpointBytes = 16777216 := rfl
  refine ⟨checkpointFront ++ (asciiBytes (String.ofList (List.replicate length 'a')) ++
    checkpointBack), ?_, ?_⟩
  · show (Result.failIf (maxCheckpointBytes < (checkpointFront ++
      (asciiBytes (String.ofList (List.replicate length 'a')) ++ checkpointBack)).length) _).bind _ =
        _
    rw [Result.failIf, if_neg]
    · rfl
    · rw [length_append, length_append, hfront, hback, hname]
      omega
  · rw [length_append, length_append, hfront, hback, hname]
    omega

/-- An engine and an identity of the shortest texts. -/
def sampleEngine : EngineVersion := ⟨[48, 46, 49, 46, 48], rfl⟩

/-- The campaign of id one at version `1`. -/
def sampleIdentity : SaveIdentity := ⟨1, [49]⟩

/-- The save of a named host is read back through the envelope; a checkpoint at its cap is refused.
-/
theorem host_saves_named : ∃ bytes payload envelope,
    saveCheckpoint namedToVec (namedHost 3) = .ok bytes ∧
      encodeHostSave sampleEngine sampleIdentity bytes = .ok payload ∧
      encodeEnvelope sampleZstd (fun _ _ ↦ abcStamp) hostSaveKind payload = .ok envelope ∧
      decodeEnvelope sampleZstd (fun _ _ ↦ abcStamp) (maxPayloadBytes + 1) hostSaveKind envelope =
        .ok payload ∧
      decodeHostSave (fun checkpoint _ _ ↦ .ok checkpoint) payload sampleIdentity 2 0 =
        .ok ⟨bytes, sampleEngine.text⟩ ∧
    ∃ full, saveCheckpoint namedToVec (namedHost 16776863) = .ok full ∧
      encodeHostSave sampleEngine sampleIdentity full = .err (.tooLarge 16777244) := by
  obtain ⟨bytes, hsave, hlength⟩ := saveCheckpoint_namedHost (by decide : 3 ≤ 16776863)
  have hall := host_saves (fun checkpoint _ _ ↦ .ok checkpoint) namedToVec faithful_sampleZstd
    (fun _ _ ↦ rfl : ∀ _ _, abcStamp.length = 32) (Nat.lt_succ_self maxPayloadBytes)
  have hfits : headerLen sampleEngine sampleIdentity + bytes.length ≤ maxPayloadBytes := by
    rw [hlength]
    decide
  obtain ⟨payload, hpayload⟩ :=
    (hall.1 _ bytes sampleEngine sampleIdentity hsave (by decide)).1.mpr hfits
  obtain ⟨hdecode, -, envelope, henvelope, hopened⟩ := hall.2.1 _ _ _ _ hpayload
  obtain ⟨full, hfull, hcap⟩ := saveCheckpoint_namedHost (le_refl 16776863)
  have hheader : headerLen sampleEngine sampleIdentity = 28 := by decide
  have hrefused := (hall.1 _ full sampleEngine sampleIdentity hfull (by decide)).2.1
  rw [hheader, hcap] at hrefused
  exact ⟨bytes, payload, envelope, hsave, hpayload, henvelope, hopened, hdecode 2 0, full, hfull,
    hrefused (by decide)⟩

/-- A checkpoint at its cap cannot be written under any identity: with a header it passes the
payload cap, which is the same. -/
theorem checkpoint_at_cap_unsaved : ¬∀ toVec host bytes engine identity,
    saveCheckpoint toVec host = .ok bytes → validVersionText identity.campaignVersion = true →
      ∃ payload, encodeHostSave engine identity bytes = .ok payload := by
  intro hwritten
  obtain ⟨bytes, hsave, hlength⟩ := saveCheckpoint_namedHost (le_refl 16776863)
  obtain ⟨payload, hencode⟩ := hwritten namedToVec _ bytes sampleEngine sampleIdentity hsave
    (by decide)
  obtain ⟨-, hfits, hpayload⟩ := encodeHostSave_eq_ok_iff.mp hencode
  have hheader : headerLen sampleEngine sampleIdentity = 28 := by decide
  have hmax : maxPayloadBytes = 16777216 := rfl
  rw [hpayload, length_append, length_hostSaveHeader] at hfits
  omega

end Crpg.Server
