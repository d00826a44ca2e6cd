import Crpg.Core.Fixed
import Crpg.Lib.BTreeMap
import Crpg.Lib.Counter
import Crpg.Net.Protocol

/-!
# The reassembly pool

`crpg-net/src/reassembly.rs`. A pool keeps, for each receiver, the snapshot transfer in flight, the
deltas held back and the updates ready to be popped, and decides which deltas may pass. This module
embeds the assembly of one transfer and every operation of the pool: receivers are added, removed
and rebound, transfer frames and deltas are offered, time sweeps expired transfers, and updates are
popped.

The four byte counters are `Counter`s, so that a `saturating_sub` that loses bytes leaves a mark.
The three decoders the pool calls are a parameter (`Codec`), any functions from bytes to messages:
nothing below depends on the wire form. An operation on one receiver touches that receiver and the
two pool counters, so it is a function on a `Focus` of those three, loaded from the pool and stored
back.
-/

set_option autoImplicit false

namespace Crpg.Net

open Crpg.Core Crpg.Lib

/-! ### One transfer -/

/-- Why an assembly refuses a chunk. -/
inductive AssemblyError
  | wrongTransfer
  | outOfRange
  | wrongLength
  | conflict
deriving DecidableEq

/-- What an assembly did with a chunk. -/
inductive ChunkOutcome
  | stored
  | duplicate
  | complete
deriving DecidableEq

/-- The chunks of one transfer received so far: a buffer of the announced size, one bit for each
chunk stored, and their count. -/
structure TransferAssembly where
  header : BeginTransfer
  buffer : List UInt8
  bitmap : ℕ
  received : ℕ
deriving DecidableEq

namespace TransferAssembly

/-- An empty assembly for a header that passes its own checks. -/
def new (header : BeginTransfer) : Except CodecError TransferAssembly :=
  match header.validate with
  | .error defect => .error defect
  | .ok () => .ok ⟨header, List.replicate header.totalBytes 0, 0, 0⟩

/-- `buffer[start..start + len]`. -/
def slice (buffer : List UInt8) (start len : ℕ) : List UInt8 := (buffer.drop start).take len

/-- `buffer[start..start + bytes.len()].copy_from_slice(bytes)`. -/
def splice (buffer : List UInt8) (start : ℕ) (bytes : List UInt8) : List UInt8 :=
  buffer.take start ++ bytes ++ buffer.drop (start + bytes.length)

/-- Stores a chunk, recognises a repeated one, or refuses it. -/
def accept (assembly : TransferAssembly) (chunk : TransferChunk) :
    Except AssemblyError (ChunkOutcome × TransferAssembly) :=
  if chunk.epoch ≠ assembly.header.epoch ∨ chunk.transfer ≠ assembly.header.transfer then
    .error .wrongTransfer
  else if assembly.header.chunkCount ≤ chunk.index then .error .outOfRange
  else
    match assembly.header.chunkLen chunk.index with
    | none => .error .outOfRange
    | some expected =>
      if chunk.bytes.length ≠ expected then .error .wrongLength
      else
        let start := chunk.index * assembly.header.chunkSize
        if assembly.bitmap.testBit chunk.index then
          if slice assembly.buffer start expected = chunk.bytes then .ok (.duplicate, assembly)
          else .error .conflict
        else
          let stored : TransferAssembly :=
            { assembly with
              buffer := splice assembly.buffer start chunk.bytes
              bitmap := assembly.bitmap ||| 2 ^ chunk.index
              received := assembly.received + 1 }
          if stored.received = assembly.header.chunkCount then .ok (.complete, stored)
          else .ok (.stored, stored)

def intoBytes (assembly : TransferAssembly) : Option (List UInt8) :=
  if assembly.received ≠ assembly.header.chunkCount then none else some assembly.buffer

end TransferAssembly

/-! ### Limits -/

/-- The limits a pool enforces. -/
structure TransferLimits where
  maxReceivers : ℕ
  deadlineMs : ℕ
  stagingBytesPerReceiver : ℕ
  stagingBytesTotal : ℕ
  deltaFramesPerReceiver : ℕ
  deltaBytesPerReceiver : ℕ
  deltaBytesTotal : ℕ
deriving DecidableEq

/-- Why limits are refused, with the field at fault. -/
inductive LimitsError
  | invalidLimits (field : String)
  | loosensPolicy (field : String)
deriving DecidableEq

namespace TransferLimits

/-- The policy defaults. -/
def v1 : TransferLimits where
  maxReceivers := 8
  deadlineMs := 5000
  stagingBytesPerReceiver := maxSnapshotBytes
  stagingBytesTotal := 8 * 1048576
  deltaFramesPerReceiver := 128
  deltaBytesPerReceiver := 2 * 1048576
  deltaBytesTotal := 16 * 1048576

def checkField (field : String) (floor value ceiling : ℕ) : Except LimitsError Unit :=
  if value < floor then .error (.invalidLimits field)
  else if ceiling < value then .error (.loosensPolicy field)
  else .ok ()

/-- The checks of the limits, in field order. -/
def validate (limits : TransferLimits) : Except LimitsError Unit := do
  checkField "max_receivers" 1 limits.maxReceivers 8
  checkField "deadline_ms" 1 limits.deadlineMs 5000
  checkField "staging_bytes_per_receiver" 22552 limits.stagingBytesPerReceiver maxSnapshotBytes
  checkField "staging_bytes_total" limits.stagingBytesPerReceiver limits.stagingBytesTotal
    (8 * 1048576)
  checkField "delta_frames_per_receiver" 1 limits.deltaFramesPerReceiver 128
  checkField "delta_bytes_per_receiver" 65536 limits.deltaBytesPerReceiver (2 * 1048576)
  checkField "delta_bytes_total" limits.deltaBytesPerReceiver limits.deltaBytesTotal
    (16 * 1048576)

end TransferLimits

/-! ### The state of a pool -/

/-- The wire a receiver's deltas come on. -/
inductive DeltaWire
  | v1
  | v2
deriving DecidableEq

/-- Whether a receiver passes deltas or waits for a snapshot. -/
inductive GateMode
  | live
  | awaitSnapshot
deriving DecidableEq

/-- A decoded delta of either wire. -/
inductive GatedDelta
  | v1 (frame : DeltaFrame)
  | v2 (frame : DeltaFrameV2)
deriving DecidableEq

def GatedDelta.eventSeq : GatedDelta → ℕ
  | .v1 frame => frame.eventSeq
  | .v2 frame => frame.eventSeq

structure Publication where
  transfer : TransferId
  baseTick : ℕ
  cursor : ℕ
  body : SnapshotBody
deriving DecidableEq

/-- An update a consumer pops. -/
inductive ReplicaUpdate
  | snapshot (publication : Publication)
  | delta (gated : GatedDelta)
deriving DecidableEq

def ReplicaUpdate.isSnapshot : ReplicaUpdate → Bool
  | .snapshot _ => true
  | .delta _ => false

/-- The decoders the pool calls. -/
structure Codec where
  decodeDown : List UInt8 → Except CodecError TransferDown
  decodeDelta : DeltaWire → List UInt8 → Except CodecError GatedDelta
  decodeBody : List UInt8 → Except CodecError SnapshotBody

/-- The receiver ids a pool issues. -/
abbrev ReceiverId := ℕ

structure InFlightTransfer where
  assembly : TransferAssembly
  reservedBytes : ℕ
  deadlineMs : ℕ
  header : BeginTransfer
deriving DecidableEq

structure HeldDelta where
  gated : GatedDelta
  encodedLen : ℕ
  bytes : List UInt8
deriving DecidableEq

/-- The base the last publication left. -/
structure PublishedBase where
  transfer : TransferId
  baseTick : ℕ
  cursor : ℕ
deriving DecidableEq

/-- The state kept for one receiver. -/
structure Receiver where
  epoch : SessionEpoch
  wire : DeltaWire
  mode : GateMode
  inFlight : Option InFlightTransfer
  retiredThrough : ℕ
  published : Option PublishedBase
  nextEventSeq : ℕ
  held : BTreeMap ℕ HeldDelta
  heldBytes : Counter
  queued : List ReplicaUpdate
  queuedLens : List ℕ
  queuedBytes : Counter
  resync : Option ResyncReason

structure ReassemblyPool where
  limits : TransferLimits
  nowMs : ℕ
  receivers : BTreeMap ReceiverId Receiver
  receiverCounter : ℕ
  stagingBytes : Counter
  heldDeltaBytes : Counter

/-! ### Results -/

/-- Why a transfer failed. -/
inductive FailReason
  | conflict
  | invalidBody (defect : CodecError)
  | expired
  | overflow
deriving DecidableEq

/-- The resync a failure asks for. -/
def FailReason.resyncReason : FailReason → ResyncReason
  | .expired => .expired
  | .conflict => .invalid
  | .invalidBody _ => .invalid
  | .overflow => .overflow

inductive TransferError
  | codec (defect : CodecError)
  | unknownReceiver
  | receiversFull
  | wrongEpoch
  | staleTransfer
  | unknownTransfer
  | inFlight
  | behindReplica
  | stagingFull
  | aggregateFull
  | deltaSequence
  | failed (reason : FailReason)
deriving DecidableEq

/-- What a transfer frame did. -/
inductive TransferOutcome
  | begun
  | stored (received chunkCount : ℕ)
  | duplicate
  | published (transfer : TransferId) (released : ℕ)
  | cancelled (discarded : Bool)
deriving DecidableEq

inductive DeltaOutcome
  | released (count : ℕ)
  | buffered
  | duplicate
  | superseded
deriving DecidableEq

structure Rebound where
  discarded : Option TransferId
  droppedDeltas : ℕ
deriving DecidableEq

/-! ### Operations on one receiver -/

/-- What an operation on one receiver touches: the receiver and the two pool counters. -/
structure Focus where
  receiver : Receiver
  stagingBytes : Counter
  heldDeltaBytes : Counter

namespace Receiver

/-- A receiver as `add_receiver` makes it. -/
def new (epoch : SessionEpoch) (wire : DeltaWire) (start : GateMode) : Receiver where
  epoch := epoch
  wire := wire
  mode := start
  inFlight := none
  retiredThrough := 0
  published := none
  nextEventSeq := 1
  held := .empty
  heldBytes := .zero
  queued := []
  queuedLens := []
  queuedBytes := .zero
  resync := none

/-- Whether a delta of this sequence may pass: the receiver is live, and no transfer is in flight
or its cursor covers the delta. -/
def passes (receiver : Receiver) (seq : ℕ) : Bool :=
  decide (receiver.mode = .live) &&
    match receiver.inFlight with
    | none => true
    | some inFlight => decide (seq ≤ inFlight.header.cursor)

def queuedDeltas (receiver : Receiver) : ℕ :=
  (receiver.queued.filter fun update ↦ !update.isSnapshot).length

end Receiver

namespace Focus

/-- Takes the transfer in flight, releases its reservation and retires ids through `through`. -/
def discard (focus : Focus) (inFlight : InFlightTransfer) (through : ℕ) : Focus where
  receiver := { focus.receiver with
    inFlight := none
    retiredThrough := max focus.receiver.retiredThrough through }
  stagingBytes := focus.stagingBytes.saturatingSub inFlight.reservedBytes
  heldDeltaBytes := focus.heldDeltaBytes

def dropHeld (focus : Focus) : Focus where
  receiver := { focus.receiver with
    held := .empty
    heldBytes := focus.receiver.heldBytes.reset }
  stagingBytes := focus.stagingBytes
  heldDeltaBytes := focus.heldDeltaBytes.saturatingSub focus.receiver.heldBytes.value

/-- Makes the receiver wait for a snapshot, with or without asking for one. -/
def await (focus : Focus) (resync : Option ResyncReason) : Focus :=
  { focus with receiver := { focus.receiver with mode := .awaitSnapshot, resync } }

/-- Discards the transfer in flight, if any, retiring its id. -/
def discardInFlight (focus : Focus) : Focus :=
  match focus.receiver.inFlight with
  | some inFlight => focus.discard inFlight inFlight.header.transfer
  | none => focus

/-- `fail_in_flight`: discards the transfer in flight, asks for a resync and, on overflow, drops
every held delta. -/
def failInFlight (focus : Focus) (reason : FailReason) : Focus :=
  let failed := focus.discardInFlight.await (some reason.resyncReason)
  if reason = .overflow then failed.dropHeld else failed

def handleBegin (limits : TransferLimits) (header : BeginTransfer) (nowMs : ℕ) (focus : Focus) :
    Except TransferError TransferOutcome × Focus :=
  match focus.receiver.inFlight with
  | some inFlight =>
    if inFlight.header.transfer = header.transfer then
      if inFlight.header = header then (.ok .duplicate, focus)
      else (.error (.failed .conflict), focus.failInFlight .conflict)
    else if (header.transfer : ℕ) ≤ focus.receiver.retiredThrough then
      (.error .staleTransfer, focus)
    else (.error .inFlight, focus)
  | none =>
    if (header.transfer : ℕ) ≤ focus.receiver.retiredThrough then (.error .staleTransfer, focus)
    else if header.cursor + 1 < focus.receiver.nextEventSeq ∨
        focus.receiver.published.any (fun base ↦ header.baseTick < base.baseTick) then
      (.error .behindReplica, focus)
    else if limits.stagingBytesPerReceiver < header.totalBytes then (.error .stagingFull, focus)
    else if limits.stagingBytesTotal < focus.stagingBytes.value + header.totalBytes then
      (.error .aggregateFull, focus)
    else
      match TransferAssembly.new header with
      | .error defect => (.error (.codec defect), focus)
      | .ok assembly =>
        (.ok .begun,
          { focus with
            receiver := { focus.receiver with
              inFlight := some
                { assembly
                  reservedBytes := header.totalBytes
                  deadlineMs := saturatingAdd u64Max nowMs limits.deadlineMs
                  header }
              resync := none }
            stagingBytes := focus.stagingBytes.add header.totalBytes })

/-- Empties the queue when it holds a snapshot that a new one replaces. -/
def clearStaleQueue (focus : Focus) : Focus :=
  if focus.receiver.queued.any ReplicaUpdate.isSnapshot then
    { focus with
      receiver := { focus.receiver with
        queued := []
        queuedLens := []
        queuedBytes := focus.receiver.queuedBytes.reset }
      heldDeltaBytes := focus.heldDeltaBytes.saturatingSub focus.receiver.queuedBytes.value }
  else focus

/-- Takes the bytes of one held delta off the two counters that hold them. -/
def forgetHeld (focus : Focus) (delta : HeldDelta) : Focus :=
  { focus with
    receiver := { focus.receiver with
      heldBytes := focus.receiver.heldBytes.saturatingSub delta.encodedLen }
    heldDeltaBytes := focus.heldDeltaBytes.saturatingSub delta.encodedLen }

def dropCovered (focus : Focus) (cursor : ℕ) : Focus :=
  let covered := focus.receiver.held.entries.filter fun entry ↦ entry.1 ≤ cursor
  let forgotten := covered.foldl (fun focus entry ↦ focus.forgetHeld entry.2) focus
  { forgotten with
    receiver := { forgotten.receiver with
      held := forgotten.receiver.held.filter fun seq _ ↦ !decide (seq ≤ cursor) } }

/-- Appends an update of some length to the queue, counting its bytes. -/
def enqueue (focus : Focus) (update : ReplicaUpdate) (len : ℕ) : Focus :=
  { focus with
    receiver := { focus.receiver with
      queued := focus.receiver.queued ++ [update]
      queuedLens := focus.receiver.queuedLens ++ [len]
      queuedBytes := focus.receiver.queuedBytes.add len }
    heldDeltaBytes := focus.heldDeltaBytes.add len }

/-- Moves one held delta to the queue and expects the sequence after it. -/
def release (focus : Focus) (seq : ℕ) (delta : HeldDelta) : Focus :=
  let taken := { focus with
    receiver := { focus.receiver with held := focus.receiver.held.erase seq } }
  let queued := (taken.forgetHeld delta).enqueue (.delta delta.gated) delta.encodedLen
  { queued with receiver := { queued.receiver with nextEventSeq := seq + 1 } }

/-- Moves held deltas to the queue while the expected one is held and passes the gate. Returns how
many moved. -/
def drain (focus : Focus) (gate : Receiver → ℕ → Bool) : ℕ → ℕ × Focus
  | 0 => (0, focus)
  | fuel + 1 =>
    let seq := focus.receiver.nextEventSeq
    if gate focus.receiver seq then
      match focus.receiver.held.get? seq with
      | some delta =>
        let (count, drained) := (focus.release seq delta).drain gate fuel
        (count + 1, drained)
      | none => (0, focus)
    else (0, focus)

/-- The failure of a published body: the transfer is retired and the receiver waits again. -/
def failBody (focus : Focus) (inFlight : InFlightTransfer) (defect : CodecError) :
    Except TransferError TransferOutcome × Focus :=
  (.error (.failed (.invalidBody defect)),
    (focus.discard inFlight inFlight.header.transfer).await
      (some (FailReason.invalidBody defect).resyncReason))

/-- The cutover to a decoded body: the transfer is retired, what the snapshot replaces is dropped,
the snapshot is queued and the deltas that follow it are released. -/
def cutover (focus : Focus) (inFlight : InFlightTransfer) (body : SnapshotBody) :
    Except TransferError TransferOutcome × Focus :=
  let header := inFlight.header
  let kept := ((focus.discard inFlight header.transfer).clearStaleQueue).dropCovered header.cursor
  let live : Focus := { kept with
    receiver := { kept.receiver with
      published := some ⟨header.transfer, header.baseTick, header.cursor⟩
      nextEventSeq := saturatingAdd u64Max header.cursor 1
      mode := .live
      resync := none } }
  let queued := live.enqueue
    (.snapshot ⟨header.transfer, header.baseTick, header.cursor, body⟩) 0
  let (released, drained) := queued.drain (fun _ _ ↦ true) queued.receiver.held.size
  (.ok (.published header.transfer released), drained)

/-- `publish`: decodes the assembled body and cuts over to it. An incomplete assembly is put
back. -/
def publish (codec : Codec) (inFlight : InFlightTransfer) (focus : Focus) :
    Except TransferError TransferOutcome × Focus :=
  match inFlight.assembly.intoBytes with
  | none => (.error (.failed (.invalidBody .malformed)), focus)
  | some bytes =>
    match codec.decodeBody bytes with
    | .error defect => focus.failBody inFlight defect
    | .ok body =>
      if body.entities.length ≠ inFlight.header.entityCount then
        focus.failBody inFlight .malformed
      else focus.cutover inFlight body

def handleChunk (codec : Codec) (chunk : TransferChunk) (focus : Focus) :
    Except TransferError TransferOutcome × Focus :=
  let stray : Except TransferError TransferOutcome × Focus :=
    if (chunk.transfer : ℕ) ≤ focus.receiver.retiredThrough then (.error .staleTransfer, focus)
    else (.error .unknownTransfer, focus)
  match focus.receiver.inFlight with
  | none => stray
  | some inFlight =>
    if inFlight.header.transfer = chunk.transfer then
      match inFlight.assembly.accept chunk with
      | .error _ => (.error (.failed .conflict), focus.failInFlight .conflict)
      | .ok (outcome, assembly) =>
        let stored := { inFlight with assembly }
        let focus := { focus with
          receiver := { focus.receiver with inFlight := some stored } }
        match outcome with
        | .duplicate => (.ok .duplicate, focus)
        | .stored =>
          (.ok (.stored assembly.received assembly.header.chunkCount), focus)
        | .complete => focus.publish codec stored
    else stray

def handleCancel (transfer : TransferId) (focus : Focus) :
    Except TransferError TransferOutcome × Focus :=
  match focus.receiver.inFlight.filter fun inFlight ↦ inFlight.header.transfer ≤ transfer with
  | some inFlight =>
    (.ok (.cancelled true),
      (focus.discard inFlight transfer).await focus.receiver.resync)
  | none =>
    (.ok (.cancelled false),
      { focus with receiver := { focus.receiver with
          retiredThrough := max focus.receiver.retiredThrough transfer } })

/-- The delta branch that queues the expected delta and drains what follows it. -/
def releaseOffered (gated : GatedDelta) (len : ℕ) (focus : Focus) :
    Except TransferError DeltaOutcome × Focus :=
  let queued := focus.enqueue (.delta gated) len
  let next := { queued with
    receiver := { queued.receiver with nextEventSeq := gated.eventSeq + 1 } }
  let (count, drained) := next.drain Receiver.passes next.receiver.held.size
  (.ok (.released (count + 1)), drained)

def hold (gated : GatedDelta) (bytes : List UInt8) (focus : Focus) :
    Except TransferError DeltaOutcome × Focus :=
  (.ok .buffered,
    { focus with
      receiver := { focus.receiver with
        held := focus.receiver.held.insert gated.eventSeq ⟨gated, bytes.length, bytes⟩
        heldBytes := focus.receiver.heldBytes.add bytes.length }
      heldDeltaBytes := focus.heldDeltaBytes.add bytes.length })

/-- `offer_delta`, after the sweep. -/
def offerDelta (codec : Codec) (limits : TransferLimits) (bytes : List UInt8) (focus : Focus) :
    Except TransferError DeltaOutcome × Focus :=
  match codec.decodeDelta focus.receiver.wire bytes with
  | .error defect => (.error (.codec defect), focus)
  | .ok gated =>
    let seq := gated.eventSeq
    if seq = 0 ∨ seqLast < seq then (.error .deltaSequence, focus)
    else if seq < focus.receiver.nextEventSeq then (.ok .superseded, focus)
    else
      match focus.receiver.held.get? seq with
      | some delta =>
        if delta.bytes = bytes then (.ok .duplicate, focus)
        else (.error (.failed .conflict), focus.failInFlight .conflict)
      | none =>
        if limits.deltaFramesPerReceiver <
              focus.receiver.held.size + focus.receiver.queuedDeltas + 1 ∨
            limits.deltaBytesPerReceiver <
              focus.receiver.heldBytes.value + focus.receiver.queuedBytes.value + bytes.length ∨
            limits.deltaBytesTotal < focus.heldDeltaBytes.value + bytes.length then
          (.error (.failed .overflow), focus.failInFlight .overflow)
        else if focus.receiver.passes seq ∧ seq = focus.receiver.nextEventSeq then
          focus.releaseOffered gated bytes.length
        else focus.hold gated bytes

def popUpdate (focus : Focus) : Option ReplicaUpdate × Focus :=
  match focus.receiver.queued with
  | [] => (none, focus)
  | update :: queued =>
    let len := focus.receiver.queuedLens.headD 0
    (some update,
      { focus with
        receiver := { focus.receiver with
          queued
          queuedLens := focus.receiver.queuedLens.tail
          queuedBytes := focus.receiver.queuedBytes.saturatingSub len }
        heldDeltaBytes := focus.heldDeltaBytes.saturatingSub len })

/-- `rebind_receiver`, after the sweep. -/
def rebind (focus : Focus) : Rebound × Focus :=
  (⟨focus.receiver.inFlight.map fun inFlight ↦ inFlight.header.transfer,
      focus.receiver.held.size⟩,
    (focus.discardInFlight.dropHeld).await none)

end Focus

/-! ### Operations of the pool -/

namespace ReassemblyPool

/-- A pool without receivers, for limits that pass their own checks. -/
def new (limits : TransferLimits) : Except LimitsError ReassemblyPool :=
  match limits.validate with
  | .error defect => .error defect
  | .ok () => .ok ⟨limits, 0, .empty, 0, .zero, .zero⟩

def focus (pool : ReassemblyPool) (receiver : Receiver) : Focus :=
  ⟨receiver, pool.stagingBytes, pool.heldDeltaBytes⟩

def store (pool : ReassemblyPool) (id : ReceiverId) (focus : Focus) : ReassemblyPool :=
  { pool with
    receivers := pool.receivers.insert id focus.receiver
    stagingBytes := focus.stagingBytes
    heldDeltaBytes := focus.heldDeltaBytes }

def addReceiver (pool : ReassemblyPool) (epoch : SessionEpoch) (wire : DeltaWire)
    (start : GateMode) : Except TransferError ReceiverId × ReassemblyPool :=
  if pool.limits.maxReceivers ≤ pool.receivers.size then (.error .receiversFull, pool)
  else if pool.receiverCounter = u32Max then (.error .receiversFull, pool)
  else
    let id := pool.receiverCounter + 1
    (.ok id,
      { pool with
        receiverCounter := id
        receivers := pool.receivers.insert id (Receiver.new epoch wire start) })

/-- Removes a receiver and gives back what it holds. -/
def removeReceiver (pool : ReassemblyPool) (id : ReceiverId) : ReassemblyPool :=
  match pool.receivers.get? id with
  | none => pool
  | some receiver =>
    { pool with
      receivers := pool.receivers.erase id
      stagingBytes :=
        match receiver.inFlight with
        | some inFlight => pool.stagingBytes.saturatingSub inFlight.reservedBytes
        | none => pool.stagingBytes
      heldDeltaBytes :=
        pool.heldDeltaBytes.saturatingSub (receiver.heldBytes.value + receiver.queuedBytes.value) }

/-- One iteration of `sweep`: fails the transfer of a receiver past its deadline and notes it. -/
def sweepOne (nowMs : ℕ) (state : List (ReceiverId × TransferId) × ReassemblyPool)
    (id : ReceiverId) : List (ReceiverId × TransferId) × ReassemblyPool :=
  match state.2.receivers.get? id with
  | none => state
  | some receiver =>
    match receiver.inFlight with
    | none => state
    | some inFlight =>
      if inFlight.deadlineMs ≤ nowMs then
        (state.1 ++ [(id, inFlight.header.transfer)],
          state.2.store id ((state.2.focus receiver).failInFlight .expired))
      else state

/-- `sweep`: fails every transfer past its deadline, in ascending receiver order. -/
def sweep (pool : ReassemblyPool) (nowMs : ℕ) : List (ReceiverId × TransferId) × ReassemblyPool :=
  pool.receivers.keys.foldl (sweepOne nowMs) ([], { pool with nowMs := max pool.nowMs nowMs })

/-- The dispatch of `offer_transfer` on a decoded message of the right epoch. -/
def handle (codec : Codec) (limits : TransferLimits) (nowMs : ℕ) (focus : Focus) :
    TransferDown → Except TransferError TransferOutcome × Focus
  | .begin header => focus.handleBegin limits header nowMs
  | .chunk chunk => focus.handleChunk codec chunk
  | .cancel _ transfer _ => focus.handleCancel transfer

def offerTransfer (pool : ReassemblyPool) (codec : Codec) (id : ReceiverId) (bytes : List UInt8)
    (nowMs : ℕ) : Except TransferError TransferOutcome × ReassemblyPool :=
  let nowMs := max nowMs pool.nowMs
  let (expired, pool) := pool.sweep nowMs
  match pool.receivers.get? id with
  | none => (.error .unknownReceiver, pool)
  | some receiver =>
    match codec.decodeDown bytes with
    | .error defect => (.error (.codec defect), pool)
    | .ok message =>
      if message.epoch ≠ receiver.epoch then (.error .wrongEpoch, pool)
      else if (id, message.transfer) ∈ expired then (.error (.failed .expired), pool)
      else
        let (result, focus) := handle codec pool.limits nowMs (pool.focus receiver) message
        (result, pool.store id focus)

def offerDelta (pool : ReassemblyPool) (codec : Codec) (id : ReceiverId) (bytes : List UInt8)
    (nowMs : ℕ) : Except TransferError DeltaOutcome × ReassemblyPool :=
  let (_, pool) := pool.sweep (max nowMs pool.nowMs)
  match pool.receivers.get? id with
  | none => (.error .unknownReceiver, pool)
  | some receiver =>
    let (result, focus) := (pool.focus receiver).offerDelta codec pool.limits bytes
    (result, pool.store id focus)

/-- Fails what has expired and names the receivers it belonged to. -/
def poll (pool : ReassemblyPool) (nowMs : ℕ) : List ReceiverId × ReassemblyPool :=
  let (expired, pool) := pool.sweep (max nowMs pool.nowMs)
  (expired.map Prod.fst, pool)

def popUpdate (pool : ReassemblyPool) (id : ReceiverId) : Option ReplicaUpdate × ReassemblyPool :=
  match pool.receivers.get? id with
  | none => (none, pool)
  | some receiver =>
    let (update, focus) := (pool.focus receiver).popUpdate
    (update, pool.store id focus)

/-- Re-anchors a receiver for a resumed connection. -/
def rebindReceiver (pool : ReassemblyPool) (id : ReceiverId) (nowMs : ℕ) :
    Except TransferError Rebound × ReassemblyPool :=
  let (_, pool) := pool.sweep (max nowMs pool.nowMs)
  match pool.receivers.get? id with
  | none => (.error .unknownReceiver, pool)
  | some receiver =>
    let (rebound, focus) := (pool.focus receiver).rebind
    (.ok rebound, pool.store id focus)

end ReassemblyPool

/-! ### Runs -/

inductive PoolOp
  | addReceiver (epoch : SessionEpoch) (wire : DeltaWire) (start : GateMode)
  | removeReceiver (id : ReceiverId)
  | rebindReceiver (id : ReceiverId) (nowMs : ℕ)
  | offerTransfer (id : ReceiverId) (bytes : List UInt8) (nowMs : ℕ)
  | offerDelta (id : ReceiverId) (bytes : List UInt8) (nowMs : ℕ)
  | poll (nowMs : ℕ)
  | popUpdate (id : ReceiverId)

/-- A pool with what its consumers have seen: the mode each receiver was added in, and the updates
popped for each, oldest first. -/
structure PoolRun where
  pool : ReassemblyPool
  added : List (ReceiverId × GateMode)
  popped : List (ReceiverId × ReplicaUpdate)

namespace PoolRun

def start (pool : ReassemblyPool) : PoolRun := ⟨pool, [], []⟩

/-- One call. -/
def step (codec : Codec) (run : PoolRun) : PoolOp → PoolRun
  | .addReceiver epoch wire start =>
    match run.pool.addReceiver epoch wire start with
    | (.ok id, pool) => { run with pool, added := run.added ++ [(id, start)] }
    | (.error _, pool) => { run with pool }
  | .removeReceiver id => { run with pool := run.pool.removeReceiver id }
  | .rebindReceiver id nowMs => { run with pool := (run.pool.rebindReceiver id nowMs).2 }
  | .offerTransfer id bytes nowMs =>
    { run with pool := (run.pool.offerTransfer codec id bytes nowMs).2 }
  | .offerDelta id bytes nowMs =>
    { run with pool := (run.pool.offerDelta codec id bytes nowMs).2 }
  | .poll nowMs => { run with pool := (run.pool.poll nowMs).2 }
  | .popUpdate id =>
    match run.pool.popUpdate id with
    | (some update, pool) => { run with pool, popped := run.popped ++ [(id, update)] }
    | (none, pool) => { run with pool }

def after (codec : Codec) (pool : ReassemblyPool) (ops : List PoolOp) : PoolRun :=
  ops.foldl (step codec) (start pool)

end PoolRun

end Crpg.Net
