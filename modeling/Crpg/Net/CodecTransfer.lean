import Crpg.Net.Codec

/-!
# The snapshot transfer format

`crpg-net/src/codec_transfer.rs`. A snapshot body is written as its rows and its turn, cut into
chunks of whole segments, and sent as a header and one frame a chunk. The readers check the bounds
of the body, the header, the chunks and their segments where the source checks them.
-/

set_option autoImplicit false

namespace Crpg.Net

open Crpg.Core Crpg.Lib

/-! ### Bounds and tags -/

def transferVersion : ℕ := 129

def laneSnapshot : ℕ := 2

@[match_pattern] abbrev transferTagBegin : ℕ := 16
@[match_pattern] abbrev transferTagChunk : ℕ := 17
@[match_pattern] abbrev transferTagCancel : ℕ := 18
@[match_pattern] abbrev transferTagPublished : ℕ := 32
@[match_pattern] abbrev transferTagResync : ℕ := 33

def maxChunkBytes : ℕ := 32768

def maxDownFrameBytes : ℕ := maxDeltaFrameBytes

def maxUpFrameBytes : ℕ := maxIntentFrameBytes

def takeTransferId : WireReader TransferId := takeNetId

/-! ### Bodies -/

def putHealth (fact : HealthFact) : List UInt8 :=
  putInt 32 fact.health ++ (putInt 32 fact.maxHealth ++ putBool fact.dead)

def putRow (row : SnapshotEntity) : List UInt8 :=
  putInt 64 row.entity ++ putOption putHealth row.health

def putTurn (fact : TurnFact) : List UInt8 := putActive fact.active ++ putInt 64 fact.round

/-- Whether the ids of the rows fail to ascend from the last one. -/
def unsorted : Option ℕ → List SnapshotEntity → Bool
  | _, [] => false
  | last, row :: rest =>
    if last.any (fun before ↦ (row.entity : ℕ) ≤ before) then true
    else unsorted (some row.entity) rest

def strayActive (rows : List SnapshotEntity) (active : Option NetId) : Bool :=
  active.any fun id ↦ !(rows.any fun row ↦ row.entity == id)

def encodeBody (body : SnapshotBody) : Except CodecError (List UInt8) :=
  if maxVisibleEntities < body.entities.length then .error .limitExceeded
  else if unsorted none body.entities then .error .malformed
  else if strayActive body.entities (body.turn.bind TurnFact.active) then .error .malformed
  else
    let out := putInt 64 body.entities.length ++ (body.entities.flatMap putRow ++
      putOption putTurn body.turn)
    if maxSnapshotBytes < out.length then .error .limitExceeded else .ok out

def takeHealth : WireReader HealthFact := do
  let health ← takeU32
  let maxHealth ← takeU32
  let dead ← takeFlag
  pure ⟨health, maxHealth, dead⟩

/-- The loop of `decode_body`: rows with ids that ascend from the last one. -/
def takeRows : ℕ → Option ℕ → WireReader (List SnapshotEntity)
  | 0, _ => pure []
  | count + 1, last => do
    let entity ← takeNetId
    if last.any (fun before ↦ (entity : ℕ) ≤ before) then throw .malformed
    else do
      let health ← takeOption takeHealth
      let rest ← takeRows count (some entity)
      pure (⟨entity, health⟩ :: rest)

def takeActiveAmong (rows : List SnapshotEntity) : WireReader NetId := do
  let entity ← takeNetId
  if strayActive rows (some entity) then throw .malformed else pure entity

def takeTurn (rows : List SnapshotEntity) : WireReader TurnFact := do
  let active ← takeOption (takeActiveAmong rows)
  let round ← takeU64
  pure ⟨active, round⟩

/-- The fields of a body, as `decode_body` reads them. -/
def takeBody : WireReader SnapshotBody := do
  let count ← takeU64
  if maxVisibleEntities < count then throw .limitExceeded
  else do
    let entities ← takeRows count none
    let turn ← takeOption (takeTurn entities)
    pure ⟨entities, turn⟩

def decodeBody (bytes : List UInt8) : Except CodecError SnapshotBody :=
  if maxSnapshotBytes < bytes.length then .error .limitExceeded
  else readAll takeBody .malformed bytes

/-! ### Messages -/

/-- `CancelReason::as_u8`. -/
def CancelReason.asU8 : CancelReason → ℕ
  | superseded => 1
  | aborted => 2

/-- `CancelReason::from_u8`. -/
def CancelReason.fromU8 : ℕ → Option CancelReason
  | 1 => some superseded
  | 2 => some aborted
  | _ => none

/-- `ResyncReason::as_u8`. -/
def ResyncReason.asU8 : ResyncReason → ℕ
  | expired => 1
  | invalid => 2
  | overflow => 3

/-- `ResyncReason::from_u8`. -/
def ResyncReason.fromU8 : ℕ → Option ResyncReason
  | 1 => some expired
  | 2 => some invalid
  | 3 => some overflow
  | _ => none

def putTransferHeader (tag : ℕ) : List UInt8 :=
  putByte transferVersion ++ (putByte laneSnapshot ++ putByte tag)

/-- The segments of a payload: full ones and then what is left. -/
def segmentsFrom : ℕ → List UInt8 → List (List UInt8)
  | 0, _ => []
  | _ + 1, [] => []
  | fuel + 1, byte :: rest =>
    (byte :: rest).take maxSegmentBytes ::
      segmentsFrom fuel ((byte :: rest).drop maxSegmentBytes)

def segments (payload : List UInt8) : List (List UInt8) := segmentsFrom payload.length payload

def putSegment (segment : List UInt8) : List UInt8 := putInt 64 segment.length ++ segment

def putBegin (header : BeginTransfer) : List UInt8 :=
  header.epoch.toList ++ (putInt 64 header.transfer ++ (putInt 64 header.baseTick ++
    (putInt 64 header.cursor ++ (putInt 64 header.totalBytes ++ (putInt 64 header.entityCount ++
      (putByte header.segmentsPerChunk ++ putByte header.chunkCount))))))

def encodeDown : TransferDown → Except CodecError (List UInt8)
  | .begin header => do
    header.validate
    capped maxDownFrameBytes (putTransferHeader transferTagBegin ++ putBegin header)
  | .chunk piece =>
    if maxSnapshotChunks ≤ piece.index then .error .limitExceeded
    else if piece.bytes = [] then .error .malformed
    else if maxChunkBytes < piece.bytes.length then .error .limitExceeded
    else if maxSegmentsPerChunk < (segments piece.bytes).length then .error .limitExceeded
    else capped maxDownFrameBytes (putTransferHeader transferTagChunk ++ (piece.epoch.toList ++
      (putInt 64 piece.transfer ++ (putByte piece.index ++
        (putByte (segments piece.bytes).length ++ (segments piece.bytes).flatMap putSegment)))))
  | .cancel epoch transfer reason =>
    if CancelReason.fromU8 reason.asU8 = none then .error .unknownMessage
    else capped maxDownFrameBytes (putTransferHeader transferTagCancel ++ (epoch.toList ++
      (putInt 64 transfer ++ putByte reason.asU8)))

/-- Reads the version, the lane and the tag of a message. -/
def takeTransferTag : WireReader ℕ := do
  let version ← takeU8
  if version ≠ transferVersion then throw .unsupportedVersion
  else do
    let lane ← takeU8
    if lane ≠ laneSnapshot then throw .wrongDirection else takeU8

/-- The fields of a header, as `decode_down` reads them. -/
def takeBegin : WireReader BeginTransfer := do
  let epoch ← takeEpoch
  let transfer ← takeTransferId
  let baseTick ← takeU64
  let cursor ← takeU64
  if seqLast < cursor then throw .malformed
  else do
    let totalBytes ← takeU64
    if maxSnapshotBytes < totalBytes then throw .limitExceeded
    else if totalBytes = 0 then throw .malformed
    else do
      let entityCount ← takeU64
      if maxVisibleEntities < entityCount then throw .limitExceeded
      else do
        let segmentsPerChunk ← takeU8
        if segmentsPerChunk = 0 then throw .malformed
        else if maxSegmentsPerChunk < segmentsPerChunk then throw .limitExceeded
        else do
          let chunkCount ← takeU8
          if chunkCount = 0 then throw .malformed
          else if maxSnapshotChunks < chunkCount then throw .limitExceeded
          else if (totalBytes + (segmentsPerChunk * maxSegmentBytes - 1)) /
              (segmentsPerChunk * maxSegmentBytes) ≠ chunkCount then throw .malformed
          else pure ⟨epoch, transfer, baseTick, cursor, totalBytes % 2 ^ 32, entityCount % 2 ^ 16,
            segmentsPerChunk, chunkCount⟩

/-- The loop of `decode_down` over the segments that are left. -/
def takeSegments : ℕ → WireReader (List UInt8)
  | 0 => pure []
  | count + 1 => do
    let length ← takeU64
    if maxSegmentBytes < length then throw .limitExceeded
    else if length = 0 then throw .malformed
    else if count ≠ 0 ∧ length ≠ maxSegmentBytes then throw .malformed
    else do
      let segment ← takeRaw .malformed length
      let rest ← takeSegments count
      pure (segment ++ rest)

/-- The fields of a chunk, as `decode_down` reads them. -/
def takeChunk : WireReader TransferChunk := do
  let epoch ← takeEpoch
  let transfer ← takeTransferId
  let index ← takeU8
  if maxSnapshotChunks ≤ index then throw .limitExceeded
  else do
    let count ← takeU8
    if count = 0 then throw .malformed
    else if maxSegmentsPerChunk < count then throw .limitExceeded
    else do
      let bytes ← takeSegments count
      if bytes = [] then throw .malformed
      else if maxChunkBytes < bytes.length then throw .limitExceeded
      else pure ⟨epoch, transfer, index, bytes⟩

/-- The fields of a cancellation, as `decode_down` reads them. -/
def takeCancel : WireReader TransferDown := do
  let epoch ← takeEpoch
  let transfer ← takeTransferId
  let raw ← takeU8
  let reason ← okOr .unknownMessage (CancelReason.fromU8 raw)
  pure (.cancel epoch transfer reason)

def takeDownAfter : ℕ → WireReader TransferDown
  | transferTagBegin => do pure (.begin (← takeBegin))
  | transferTagChunk => do pure (.chunk (← takeChunk))
  | transferTagCancel => takeCancel
  | transferTagPublished => throw .wrongDirection
  | transferTagResync => throw .wrongDirection
  | _ => throw .unknownMessage

/-- `decode_down`: the message, with no byte left, and the checks of a header once more. -/
def decodeDown (bytes : List UInt8) : Except CodecError TransferDown :=
  if maxDownFrameBytes < bytes.length then .error .frameTooLarge
  else if bytes = [] then .error .malformed
  else do
    let message ← readAll (takeTransferTag >>= takeDownAfter) .malformed bytes
    match message with
    | .begin header => do
      header.validate
      .ok (.begin header)
    | other => .ok other

def encodeUp : TransferUp → Except CodecError (List UInt8)
  | .published epoch transfer =>
    capped maxUpFrameBytes (putTransferHeader transferTagPublished ++ (epoch.toList ++
      putInt 64 transfer))
  | .resync epoch after reason =>
    if ResyncReason.fromU8 reason.asU8 = none then .error .unknownMessage
    else capped maxUpFrameBytes (putTransferHeader transferTagResync ++ (epoch.toList ++
      (putInt 64 (after.elim 0 fun transfer ↦ (transfer : ℕ)) ++ putByte reason.asU8)))

def takeUpAfter : ℕ → WireReader TransferUp
  | transferTagPublished => do
    let epoch ← takeEpoch
    let transfer ← takeTransferId
    pure (.published epoch transfer)
  | transferTagResync => do
    let epoch ← takeEpoch
    let after ← takeU64
    let raw ← takeU8
    let reason ← okOr .unknownMessage (ResyncReason.fromU8 raw)
    pure (.resync epoch (nonzero after) reason)
  | transferTagBegin => throw .wrongDirection
  | transferTagChunk => throw .wrongDirection
  | transferTagCancel => throw .wrongDirection
  | _ => throw .unknownMessage

def decodeUp (bytes : List UInt8) : Except CodecError TransferUp :=
  if maxUpFrameBytes < bytes.length then .error .frameTooLarge
  else if bytes = [] then .error .malformed
  else readAll (takeTransferTag >>= takeUpAfter) .malformed bytes

/-! ### Plans -/

def planChunks (epoch : SessionEpoch) (transfer : TransferId) (chunkSize : ℕ)
    (bytes : List UInt8) : ℕ → ℕ → Except CodecError (List (List UInt8))
  | _, 0 => .ok []
  | index, count + 1 => do
    let frame ← encodeDown (.chunk ⟨epoch, transfer, index % 2 ^ 8,
      (bytes.take (min ((index + 1) * chunkSize) bytes.length)).drop (index * chunkSize)⟩)
    let frames ← planChunks epoch transfer chunkSize bytes (index + 1) count
    .ok (frame :: frames)

def planTransfer (epoch : SessionEpoch) (transfer : TransferId) (baseTick cursor : ℕ)
    (segmentsPerChunk : ℕ) (body : SnapshotBody) : Except CodecError (List (List UInt8)) :=
  if seqLast < cursor then .error .malformed
  else if segmentsPerChunk = 0 then .error .malformed
  else if maxSegmentsPerChunk < segmentsPerChunk then .error .limitExceeded
  else do
    let bytes ← encodeBody body
    let chunkSize := segmentsPerChunk * maxSegmentBytes
    let chunkCount := (bytes.length + (chunkSize - 1)) / chunkSize
    if maxSnapshotChunks < chunkCount then .error .limitExceeded
    else do
      let header : BeginTransfer := ⟨epoch, transfer, baseTick, cursor, bytes.length % 2 ^ 32,
        body.entities.length % 2 ^ 16, segmentsPerChunk, chunkCount % 2 ^ 8⟩
      header.validate
      let first ← encodeDown (.begin header)
      let rest ← planChunks epoch transfer chunkSize bytes 0 chunkCount
      .ok (first :: rest)

end Crpg.Net
