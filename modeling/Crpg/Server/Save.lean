import Crpg.Persist.Envelope
import Crpg.Server.Host

/-!
# Host saves

`crpg-server/src/save.rs` and the encoding of `checkpoint.rs`. A host save is an identity header
followed by the bytes of a checkpoint as they are: the version, the campaign's id, the campaign's
version text and the engine's, each text behind a byte of its length. Loading checks the header,
then the identity, and hands the rest to the checkpoint loader.

A text stands as its UTF-8 bytes. The JSON writer of a checkpoint is the parameter `toVec`, the
loader `loadCheckpoint`, and the engine's version text, which the build checks, an `EngineVersion`.
-/

set_option autoImplicit false

namespace Crpg.Server

open Crpg.Core Crpg.Lib Crpg.Net Crpg.Persist Crpg.Sim

/-! ### Checkpoints -/

def checkpointVersion : ℕ := 1

def maxCheckpointBytes : ℕ := 16777216

inductive CheckpointError
  | tooLarge (len : ℕ)
  | malformed
  | unsupportedVersion (version : ℕ)
  | epochReused
  | pendingIngress
  | authorityInvalid
  | io
deriving DecidableEq

structure CheckpointOut where
  version : ℕ
  incarnation : ℕ
  protocol : ℕ
  serverTick : ℕ
  history : HistoryWorld
  captured : List CapturedRecord
  captureAcknowledged : ℕ

def ProtocolSelection.asU8 : ProtocolSelection → ℕ
  | .v1 => 1
  | .v2 => 2

def checkpointOut (host : Host) : CheckpointOut where
  version := checkpointVersion
  incarnation := host.config.incarnation
  protocol := host.config.protocol.asU8
  serverTick := host.serverTick
  history := host.history
  captured := host.captures
  captureAcknowledged := host.captureAcknowledged

def saveCheckpoint (toVec : CheckpointOut → Option (List UInt8)) (host : Host) :
    Result CheckpointError (List UInt8) := do
  .failIf (host.ingress ≠ []) .pendingIngress
  let bytes ← .okOr .malformed (toVec (checkpointOut host))
  .failIf (maxCheckpointBytes < bytes.length) (.tooLarge bytes.length)
  return bytes

/-! ### The save format -/

def hostSaveVersion : ℕ := 1

def maxVersionTextBytes : ℕ := 64

def hostSaveFixedBytes : ℕ := 22

def campaignIdAt : ℕ := 4

def cvLenAt : ℕ := 20

def cvAt : ℕ := 21

def isVersionByte (byte : UInt8) : Bool :=
  (48 ≤ byte && byte ≤ 57) || (65 ≤ byte && byte ≤ 90) || (97 ≤ byte && byte ≤ 122) ||
    byte == 46 || byte == 43 || byte == 45

def validVersionText (bytes : List UInt8) : Bool :=
  !bytes.isEmpty && bytes.length ≤ maxVersionTextBytes && bytes.all isVersionByte

/-- `ENGINE_VERSION`, which the build asserts to be valid. -/
structure EngineVersion where
  text : List UInt8
  valid : validVersionText text = true

structure SaveIdentity where
  campaignId : Ulid
  campaignVersion : List UInt8
deriving DecidableEq

/-- `LoadedSave`, of whatever the loader restores. -/
structure LoadedSave (Restored : Type) where
  host : Restored
  engineVersion : List UInt8

/-- `SaveError`, without the failures of the file store. -/
inductive SaveError
  | invalidIdentity
  | tooLarge (len : ℕ)
  | malformed
  | unsupportedVersion (version : ℕ)
  | campaignMismatch
  | campaignVersionMismatch
  | checkpoint (error : CheckpointError)
deriving DecidableEq

def headerLen (engine : EngineVersion) (identity : SaveIdentity) : ℕ :=
  hostSaveFixedBytes + identity.campaignVersion.length + engine.text.length

/-- A text behind the byte of its length. -/
def prefixedText (text : List UInt8) : List UInt8 := UInt8.ofNat text.length :: text

/-- The fields that precede the checkpoint. -/
def hostSaveHeader (engine : EngineVersion) (identity : SaveIdentity) : List UInt8 :=
  leBytes 4 hostSaveVersion ++ beBytes 16 identity.campaignId.val ++
    prefixedText identity.campaignVersion ++ prefixedText engine.text

def encodeHostSave (engine : EngineVersion) (identity : SaveIdentity) (checkpoint : List UInt8) :
    Result SaveError (List UInt8) := do
  .failIf (validVersionText identity.campaignVersion = false) .invalidIdentity
  -- the unsigned subtraction of the cap
  .panicIf (maxPayloadBytes < headerLen engine identity)
  .failIf (maxPayloadBytes - headerLen engine identity < checkpoint.length)
    (.tooLarge (saturatingAdd usizeMax (headerLen engine identity) checkpoint.length))
  return hostSaveHeader engine identity ++ checkpoint

/-- `decode_host_save`, steps 1 to 13: the engine's text and the checkpoint. -/
def hostSaveParts (payload : List UInt8) (expected : SaveIdentity) :
    Result SaveError (List UInt8 × List UInt8) := do
  .failIf (validVersionText expected.campaignVersion = false) .invalidIdentity
  .failIf (maxPayloadBytes < payload.length) (.tooLarge payload.length)
  .failIf (payload.length < campaignIdAt) .malformed
  let version ← slice payload 0 campaignIdAt
  .failIf (leValue version ≠ hostSaveVersion) (.unsupportedVersion (leValue version))
  .failIf (payload.length < cvAt) .malformed
  let cvByte ← byteAt payload cvLenAt
  .failIf (cvByte.toNat = 0 ∨ maxVersionTextBytes < cvByte.toNat) .malformed
  let evLenAt := cvAt + cvByte.toNat
  .failIf (payload.length < evLenAt + 1) .malformed
  let campaignVersion ← slice payload cvAt evLenAt
  .failIf (validVersionText campaignVersion = false) .malformed
  let evByte ← byteAt payload evLenAt
  .failIf (evByte.toNat = 0 ∨ maxVersionTextBytes < evByte.toNat) .malformed
  let evAt := evLenAt + 1
  let ends := evAt + evByte.toNat
  .failIf (payload.length < ends) .malformed
  let engineVersion ← slice payload evAt ends
  .failIf (validVersionText engineVersion = false) .malformed
  let campaignId ← slice payload campaignIdAt cvLenAt
  .failIf (beValue campaignId ≠ expected.campaignId.val) .campaignMismatch
  .failIf (campaignVersion ≠ expected.campaignVersion) .campaignVersionMismatch
  let checkpoint ← slice payload ends payload.length
  return (engineVersion, checkpoint)

def decodeHostSave {Restored : Type}
    (loadCheckpoint : List UInt8 → ℕ → ℕ → Result CheckpointError Restored)
    (payload : List UInt8) (expected : SaveIdentity) (newIncarnation nowMs : ℕ) :
    Result SaveError (LoadedSave Restored) := do
  let (engineVersion, checkpoint) ← hostSaveParts payload expected
  let host ← (loadCheckpoint checkpoint newIncarnation nowMs).mapErr SaveError.checkpoint
  return ⟨host, engineVersion⟩

end Crpg.Server
