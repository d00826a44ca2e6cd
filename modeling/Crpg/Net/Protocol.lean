import Mathlib.Data.PNat.Defs
import Mathlib.Data.PNat.Basic
import Crpg.Core.Arena

/-!
# Wire vocabulary

`crpg-net/src/protocol.rs`, `protocol_v2.rs`, `protocol_transfer.rs`. The values the two wires
carry: replica ids, the commands of a client, the closed delta vocabulary of both versions, and the
messages of a snapshot transfer, with the checks `BeginTransfer` makes on itself.

A replica id and a transfer id are nonzero by construction in the source, so they are positive
naturals here. Byte strings are lists of bytes. The wire forms themselves are not part of this
module.
-/

set_option autoImplicit false

namespace Crpg.Net

open Crpg.Core

/-! ### Bounds -/

def laneCombat : ℕ := 0

/-- The lowest command sequence. -/
def seqFirst : ℕ := 1

/-- The highest command or event sequence, `u64::MAX - 1`. -/
def seqLast : ℕ := 2 ^ 64 - 2

def maxIntentFrameBytes : ℕ := 4096

def maxDeltaFrameBytes : ℕ := 65536

/-- The most operations one delta frame carries. -/
def maxDeltaOps : ℕ := 256

def maxWireStringBytes : ℕ := 256

/-- The most bytes one snapshot body takes. -/
def maxSnapshotBytes : ℕ := 1048576

/-- The most entities one viewer sees. -/
def maxVisibleEntities : ℕ := 1024

/-- The most chunks one transfer is cut into. -/
def maxSnapshotChunks : ℕ := 32

/-- The most bytes of a snapshot body the encoder makes. -/
def maxEncodedBodyBytes : ℕ := 22552

def maxSegmentBytes : ℕ := 4096

def maxSegmentsPerChunk : ℕ := 8

/-! ### Identity and facts -/

/-- A replica id: a nonzero `u64`. -/
abbrev NetId := ℕ+

instance (priority := 1100) NetId.neZero_one : NeZero 1 := ⟨by decide⟩

instance (priority := 1100) NetId.neZero_two : NeZero 2 := ⟨by decide⟩

/-- A transfer id: a nonzero `u64`. -/
abbrev TransferId := ℕ+

abbrev SessionEpoch := Vector UInt8 16

/-- What a viewer learns about an entity's health. -/
structure HealthFact where
  health : ℕ
  maxHealth : ℕ
  dead : Bool
deriving DecidableEq

/-- What a viewer learns about the turn. -/
structure TurnFact where
  active : Option NetId
  round : ℕ
deriving DecidableEq

structure SnapshotEntity where
  entity : NetId
  health : Option HealthFact
deriving DecidableEq

structure SnapshotBody where
  entities : List SnapshotEntity
  turn : Option TurnFact
deriving DecidableEq

/-! ### Intents -/

/-- What a client asks an actor to do. -/
inductive IntentBody
  | declareAction (ability : Ulid) (target : NetId)
  | endTurn
deriving DecidableEq

/-- One command of a client. -/
structure IntentFrame where
  epoch : SessionEpoch
  lane : ℕ
  seq : ℕ
  observedTick : ℕ
  actor : NetId
  body : IntentBody
deriving DecidableEq

/-! ### Deltas -/

/-- The codes a receipt rejects with. -/
inductive RejectionCode
  | frameTooLarge
  | queueFull
  | unsupportedVersion
  | wrongDirection
  | unknownMessage
  | malformed
  | limitExceeded
  | rateLimited
  | unauthenticated
  | sessionExpired
  | seqConflict
  | seqGap
  | staleSeq
  | seqExhausted
  | staleTick
  | futureTick
  | notAuthorized
  | illegalAction
  | serverBusy
  | snapshotExpired
deriving DecidableEq

/-- The terminal status of a command. -/
inductive ReceiptStatus
  | applied
  | rejected (code : RejectionCode)
deriving DecidableEq

/-- A delta operation of the first wire. -/
inductive DeltaOp
  | entityEnter (entity : NetId)
  | entityLeave (entity : NetId)
  | spawned (entity : NetId)
  | despawned (entity : NetId)
  | died (entity : NetId)
  | health (entity : NetId) (health maxHealth : ℕ) (dead : Bool)
  | turn (active : Option NetId) (round : ℕ)
  | receipt (epoch : SessionEpoch) (lane seq processedTick : ℕ) (status : ReceiptStatus)
deriving DecidableEq

structure DeltaFrame where
  lane : ℕ
  serverTick : ℕ
  eventSeq : ℕ
  ops : List DeltaOp
deriving DecidableEq

/-- A delta operation of the second wire: an operation of the first, or a projected event. -/
inductive DeltaOpV2
  | legacy (op : DeltaOp)
  | actionResolved (actor target : NetId) (ability : Ulid) (outcome : String) (damage : ℕ)
  | turnStarted (actor : NetId) (round : ℕ)
  | encounterEnded (encounter : Ulid) (round : ℕ)
deriving DecidableEq

structure DeltaFrameV2 where
  lane : ℕ
  serverTick : ℕ
  eventSeq : ℕ
  ops : List DeltaOpV2
deriving DecidableEq

/-! ### Transfers -/

inductive CodecError
  | frameTooLarge
  | unsupportedVersion
  | wrongDirection
  | unknownMessage
  | malformed
  | limitExceeded
deriving DecidableEq

/-- The header that opens a snapshot transfer. -/
structure BeginTransfer where
  epoch : SessionEpoch
  transfer : TransferId
  baseTick : ℕ
  cursor : ℕ
  totalBytes : ℕ
  entityCount : ℕ
  segmentsPerChunk : ℕ
  chunkCount : ℕ
deriving DecidableEq

namespace BeginTransfer

/-- The bytes of one full chunk. -/
def chunkSize (begin : BeginTransfer) : ℕ := begin.segmentsPerChunk * maxSegmentBytes

/-- The checks of a header, in field order. The first, that the transfer id is nonzero, cannot
fail. -/
def validate (begin : BeginTransfer) : Except CodecError Unit :=
  if seqLast < begin.cursor then .error .malformed
  else if begin.totalBytes = 0 then .error .malformed
  else if maxSnapshotBytes < begin.totalBytes then .error .limitExceeded
  else if maxVisibleEntities < begin.entityCount then .error .limitExceeded
  else if begin.segmentsPerChunk = 0 then .error .malformed
  else if maxSegmentsPerChunk < begin.segmentsPerChunk then .error .limitExceeded
  else if begin.chunkCount = 0 then .error .malformed
  else if maxSnapshotChunks < begin.chunkCount then .error .limitExceeded
  else if (begin.totalBytes + (begin.chunkSize - 1)) / begin.chunkSize ≠ begin.chunkCount then
    .error .malformed
  else .ok ()

/-- The exact payload length of a chunk. -/
def chunkLen (begin : BeginTransfer) (index : ℕ) : Option ℕ :=
  if begin.chunkCount ≤ index then none
  else
    match begin.validate with
    | .error _ => none
    | .ok () =>
      if begin.totalBytes ≤ index * begin.chunkSize then none
      else some (min ((index + 1) * begin.chunkSize) begin.totalBytes - index * begin.chunkSize)

end BeginTransfer

structure TransferChunk where
  epoch : SessionEpoch
  transfer : TransferId
  index : ℕ
  bytes : List UInt8
deriving DecidableEq

/-- Why a host cancels a transfer. -/
inductive CancelReason
  | superseded
  | aborted
deriving DecidableEq

/-- Why a receiver asks for a new snapshot. -/
inductive ResyncReason
  | expired
  | invalid
  | overflow
deriving DecidableEq

/-- An upstream transfer message. -/
inductive TransferUp
  | published (epoch : SessionEpoch) (transfer : TransferId)
  | resync (epoch : SessionEpoch) (after : Option TransferId) (reason : ResyncReason)
deriving DecidableEq

/-- A downstream transfer message. -/
inductive TransferDown
  | begin (header : BeginTransfer)
  | chunk (chunk : TransferChunk)
  | cancel (epoch : SessionEpoch) (transfer : TransferId) (reason : CancelReason)
deriving DecidableEq

namespace TransferDown

/-- The epoch a message names. -/
def epoch : TransferDown → SessionEpoch
  | .begin header => header.epoch
  | .chunk piece => piece.epoch
  | .cancel epoch _ _ => epoch

/-- The transfer a message names. -/
def transfer : TransferDown → TransferId
  | .begin header => header.transfer
  | .chunk piece => piece.transfer
  | .cancel _ transfer _ => transfer

end TransferDown

end Crpg.Net
