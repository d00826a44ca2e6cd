import Crpg.Net.CodecV2
import Crpg.Net.Resume
import Crpg.Net.TransferFormat
import Crpg.Lib.Forms

/-!
# The resume format

`crpg-net/src/codec_resume.rs`, with the rules of `crpg-net/src/protocol_resume.rs`. A request goes
up; a ticket, an acceptance or a rejection comes down. An encoder checks the message as a whole
before it writes anything; a decoder checks the same rules where it reads each field.

`Written integers` relates a message to its bytes when each 64-bit integer has one of the forms
`integers` allows. The decoders take exactly the byte strings that are `Written (VarintForm 64)` for
a valid message, and the encoder writes the one whose integers are shortest.
-/

set_option autoImplicit false

namespace Crpg.Net

open Crpg.Core Crpg.Lib

/-! ### Bounds and tags -/

def resumeVersion : ℕ := 145

def laneSession : ℕ := 3

@[match_pattern] abbrev resumeTagTicket : ℕ := 48
@[match_pattern] abbrev resumeTagAccepted : ℕ := 49
@[match_pattern] abbrev resumeTagRejected : ℕ := 50
@[match_pattern] abbrev resumeTagRequest : ℕ := 64

def maxResumeFrameBytes : ℕ := maxIntentFrameBytes

/-! ### Rules -/

def LaneClaim.entry (claim : LaneClaim) : ℕ × ℕ := (claim.lane, claim.receiptedThrough)

def LaneProgress.entry (progress : LaneProgress) : ℕ × ℕ := (progress.lane, progress.finalizedThrough)

/-- `ResumeRequest::validate`. -/
def ResumeRequest.validate (request : ResumeRequest) : Except CodecError Unit :=
  checkLanes (request.claims.map LaneClaim.entry)

/-- `ResumeResult::validate`. -/
def ResumeResult.validate : ResumeResult → Except CodecError Unit
  | .accepted answer =>
    if answer.granted < 2 then .error .malformed
    else checkLanes (answer.progress.map LaneProgress.entry)
  | .rejected _ => .ok ()

/-- `ResumeRejection::as_u8`. -/
def ResumeRejection.asU8 : ResumeRejection → ℕ
  | denied => 1
  | busy => 2

/-- `ResumeRejection::from_u8`. -/
def ResumeRejection.fromU8 : ℕ → Option ResumeRejection
  | 1 => some denied
  | 2 => some busy
  | _ => none

structure ResumeTicket where
  epoch : SessionEpoch
  proof : ResumeProof
deriving DecidableEq

/-- A downstream resume frame. -/
inductive ResumeDown
  | ticket (ticket : ResumeTicket)
  | answer (result : ResumeResult)
deriving DecidableEq

/-! ### Encoders -/

def putResumeHeader (tag : ℕ) : List UInt8 :=
  putByte resumeVersion ++ (putByte laneSession ++ putByte tag)

/-- The bytes of a proof with its length in front. -/
def putProof (proof : ResumeProof) : List UInt8 := putByte proof.bytes.length ++ proof.bytes

def putLane (entry : ℕ × ℕ) : List UInt8 := putByte entry.1 ++ putInt 64 entry.2

def putLanes (entries : List (ℕ × ℕ)) : List UInt8 :=
  putByte entries.length ++ entries.flatMap putLane

def encodeRequest (request : ResumeRequest) : Except CodecError (List UInt8) := do
  request.validate
  capped maxResumeFrameBytes (putResumeHeader resumeTagRequest ++ (request.epoch.toList ++
    (putInt 64 request.fence ++ (putProof request.proof ++
      putLanes (request.claims.map LaneClaim.entry)))))

def encodeResult (result : ResumeResult) : Except CodecError (List UInt8) := do
  result.validate
  match result with
  | .accepted answer =>
    capped maxResumeFrameBytes (putResumeHeader resumeTagAccepted ++ (answer.epoch.toList ++
      (putInt 64 answer.granted ++ putLanes (answer.progress.map LaneProgress.entry))))
  | .rejected answer =>
    capped maxResumeFrameBytes (putResumeHeader resumeTagRejected ++ (answer.epoch.toList ++
      putByte answer.reason.asU8))

/-- `encode_down`. -/
def encodeResumeDown : ResumeDown → Except CodecError (List UInt8)
  | .ticket ticket =>
    capped maxResumeFrameBytes (putResumeHeader resumeTagTicket ++ (ticket.epoch.toList ++
      putProof ticket.proof))
  | .answer result => encodeResult result

/-! ### Decoders -/

def takeFence : WireReader ConnectionFence := do
  let raw ← takeU64
  okOr .malformed (ConnectionFence.new raw)

def takeProof : WireReader ResumeProof := do
  let length ← takeU8
  if length < minResumeProofBytes then throw .malformed
  else if maxResumeProofBytes < length then throw .limitExceeded
  else do
    let bytes ← takeRaw .malformed length
    StateT.lift (ResumeProof.new bytes)

/-- The loop of `take_lanes` after a lane. -/
def takeLaneEntries : ℕ → Option ℕ → WireReader (List (ℕ × ℕ))
  | 0, _ => pure []
  | count + 1, previous => do
    let lane ← takeU8
    if lane ≠ laneCombat then throw .unknownMessage
    else if previous.any (lane ≤ ·) then throw .malformed
    else do
      let through ← takeU64
      if seqLast < through then throw .malformed
      else do
        let rest ← takeLaneEntries count (some lane)
        pure ((lane, through) :: rest)

def takeLanes : WireReader (List (ℕ × ℕ)) := do
  let count ← takeU8
  if count = 0 then throw .malformed
  else if maxResumeLanes < count then throw .limitExceeded
  else takeLaneEntries count none

/-- Reads the version, the lane and the tag of a frame. -/
def takeResumeTag : WireReader ℕ := do
  let version ← takeU8
  if version ≠ resumeVersion then throw .unsupportedVersion
  else do
    let lane ← takeU8
    if lane ≠ laneSession then throw .wrongDirection else takeU8

def takeRequestAfter : ℕ → WireReader ResumeRequest
  | resumeTagRequest => do
    let epoch ← takeEpoch
    let fence ← takeFence
    let proof ← takeProof
    let entries ← takeLanes
    pure ⟨epoch, fence, proof, entries.map fun entry ↦ ⟨entry.1, entry.2⟩⟩
  | resumeTagTicket => throw .wrongDirection
  | resumeTagAccepted => throw .wrongDirection
  | resumeTagRejected => throw .wrongDirection
  | _ => throw .unknownMessage

def decodeRequest (bytes : List UInt8) : Except CodecError ResumeRequest :=
  if maxResumeFrameBytes < bytes.length then .error .frameTooLarge
  else if bytes = [] then .error .malformed
  else readAll (takeResumeTag >>= takeRequestAfter) .malformed bytes

/-- The fields of a downstream frame after its tag. -/
def takeResumeDownAfter : ℕ → WireReader ResumeDown
  | resumeTagTicket => do
    let epoch ← takeEpoch
    let proof ← takeProof
    pure (.ticket ⟨epoch, proof⟩)
  | resumeTagAccepted => do
    let epoch ← takeEpoch
    let granted ← takeFence
    if granted < 2 then throw .malformed
    else do
      let entries ← takeLanes
      pure (.answer (.accepted ⟨epoch, granted, entries.map fun entry ↦ ⟨entry.1, entry.2⟩⟩))
  | resumeTagRejected => do
    let epoch ← takeEpoch
    let raw ← takeU8
    let reason ← okOr .unknownMessage (ResumeRejection.fromU8 raw)
    pure (.answer (.rejected ⟨epoch, reason⟩))
  | resumeTagRequest => throw .wrongDirection
  | _ => throw .unknownMessage

/-- `decode_down`. -/
def decodeResumeDown (bytes : List UInt8) : Except CodecError ResumeDown :=
  if maxResumeFrameBytes < bytes.length then .error .frameTooLarge
  else if bytes = [] then .error .malformed
  else readAll (takeResumeTag >>= takeResumeDownAfter) .malformed bytes

end Crpg.Net
