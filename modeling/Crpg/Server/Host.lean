import Crpg.Lib.Call
import Crpg.Net.CodecTransfer
import Crpg.Net.Transport
import Crpg.Server.Grants

/-!
# The host

`crpg-server/src/host.rs`. One serial host owns one history. A binding gives a peer its session,
with its grants, its identity map, its delivery log and its transfer; `setGrants` replaces the
grants. Deliveries wait in the log of their session until they are acknowledged.

Every method is a `Call` on the host: what it mutated before a failure stays mutated. An unsigned
subtraction of the source is `Call.sub`, and an `expect` is a panic. Times, lengths and counters are
naturals; the counters the source adds to with a check are checked here.
-/

set_option autoImplicit false

namespace Crpg.Server

open Crpg.Core Crpg.Lib Crpg.Rules Crpg.Sim Crpg.Net

/-! ### Policy -/

/-- `MAX_PEERS`: the most bindings. -/
def maxPeers : ℕ := policyProofPeers

def snapshotSegmentsPerChunk : ℕ := 8

/-- `QueueCaps::v1_egress`: the egress caps. -/
def egressCaps : QueueCaps := ⟨128, 2097152, usizeMax, 16777216⟩

/-! ### Values -/

/-- The wire version every binding of a host speaks. -/
inductive ProtocolSelection
  | v1
  | v2
deriving DecidableEq

structure HostConfig where
  protocol : ProtocolSelection
  incarnation : ℕ
deriving DecidableEq

/-- A binding, never reused. -/
abbrev PeerHandle := ℕ

/-- The delivery effect of new grants. -/
inductive GrantUpdate
  | unchanged
  | rebindRequired
  | snapshotStaged
deriving DecidableEq

structure StagedCommand where
  peer : PeerHandle
  bytes : List UInt8
deriving DecidableEq

/-- One entry of the retry cache. `receipt` is the generation and ordinal of its last receipt. -/
structure CacheEntry where
  seq : ℕ
  canonical : List UInt8
  status : ReceiptStatus
  processedTick : ℕ
  receipt : Option (ℕ × ℕ)
  bytes : ℕ
deriving DecidableEq

/-- One unacknowledged frame. A lane-0 delta has an event sequence, a transfer frame has none. -/
structure LoggedFrame where
  ordinal : ℕ
  eventSeq : Option ℕ
  bytes : List UInt8
deriving DecidableEq

/-- Why a snapshot is staged. -/
inductive SnapshotCause
  | narrowed
  | resync
deriving DecidableEq

/-- The reason an in-flight transfer is cancelled with. -/
def SnapshotCause.cancelReason : SnapshotCause → CancelReason
  | narrowed => .aborted
  | resync => .superseded

/-- One binding. -/
structure Session where
  epoch : SessionEpoch
  control : List EntityId
  grants : DisclosureGrants
  map : EntityMap
  reverse : BTreeMap NetId EntityId
  nextNet : ℕ
  nextNewSeq : ℕ
  cache : List CacheEntry
  cacheBytes : ℕ
  intentFrames : TokenBucket
  intentBytes : TokenBucket
  failFrames : TokenBucket
  failBytes : TokenBucket
  ingressFrames : ℕ
  ingressBytes : ℕ
  log : List LoggedFrame
  logBytes : ℕ
  nextEventSeq : ℕ
  delivered : ℕ
  generation : ℕ
  resyncPending : Bool
  snapshot : Bool
  nextOrdinal : ℕ
  nextTransfer : ℕ
  inFlight : Option ℕ

namespace Session

def installMap (session : Session) (map : EntityMap) (nextNet : ℕ) : Session :=
  { session with
    map := map
    reverse := BTreeMap.ofList (map.entries.map fun entry ↦ (entry.2, entry.1))
    nextNet := nextNet }

def view (session : Session) : PeerView := ⟨session.grants, session.map⟩

end Session

structure Host where
  config : HostConfig
  history : HistoryWorld
  closed : Bool
  lastNowMs : ℕ
  nextHandle : ℕ
  sessions : BTreeMap PeerHandle Session
  ingress : List StagedCommand
  ingressBytes : ℕ
  egressBytes : ℕ
  executions : ℕ
  lastCombatError : Option CombatError
  captures : List CapturedRecord
  captureLens : List ℕ
  captureBytes : ℕ
  captureAcknowledged : ℕ
  lastCapture : ℕ

abbrev HostCall := Call Host HostError

/-! ### Helpers -/

/-- A byte of the little-endian form of a number. -/
def leByte (value index : ℕ) : UInt8 := UInt8.ofNat (value / 256 ^ index % 256)

def epochOf (incarnation handle : ℕ) : SessionEpoch :=
  Vector.ofFn fun index ↦
    if index.val < 8 then leByte incarnation index.val else leByte handle (index.val - 8)

/-- The legacy operation of a first-version frame. -/
def legacyOp : DeltaOpV2 → Result HostError DeltaOp
  | .legacy op => .ok op
  | _ => .err (.invariant "v2 event op on a v1 host")

/-- The `map_err` of an encoder. -/
def encoded (what : String) : Except CodecError (List UInt8) → Result HostError (List UInt8)
  | .ok bytes => .ok bytes
  | .error _ => .err (.invariant what)

def encodeFrame (protocol : ProtocolSelection) (serverTick eventSeq : ℕ) (ops : List DeltaOpV2) :
    Result HostError (List UInt8) :=
  match protocol with
  | .v1 => do
    let legacy ← Result.mapM legacyOp ops
    encoded "host frame failed to encode" (encodeDelta ⟨laneCombat, serverTick, eventSeq, legacy⟩)
  | .v2 => encoded "host frame failed to encode"
      (encodeDeltaV2 ⟨laneCombat, serverTick, eventSeq, ops⟩)

def takeEventSeq (frame : LoggedFrame) : Call (ℕ × Session) HostError Unit :=
  match frame.eventSeq with
  | none => pure ()
  | some _ => do
    let state ← Call.get
    Call.failIf (state.2.nextEventSeq + 1 > u64Max) .counterExhausted
    Call.set (state.1, { state.2 with nextEventSeq := state.2.nextEventSeq + 1 })

/-- Numbers one frame and appends it to the log, counting its bytes. -/
def pushFrame (frame : LoggedFrame) : Call (ℕ × Session) HostError Unit := do
  let state ← Call.get
  Call.failIf (state.2.nextOrdinal + 1 > u64Max) .counterExhausted
  Call.set (state.1, { state.2 with nextOrdinal := state.2.nextOrdinal + 1 })
  takeEventSeq frame
  Call.modify fun (total, session) ↦ (total + frame.bytes.length, { session with
    logBytes := session.logBytes + frame.bytes.length
    log := session.log ++ [{ frame with ordinal := state.2.nextOrdinal }] })

def pushFrames (frames : List LoggedFrame) : Call (ℕ × Session) HostError Unit :=
  Call.forM pushFrame frames

/-- `slice::chunks`, with fuel for every chunk. -/
def chunks {α : Type*} (size : ℕ) : ℕ → List α → List (List α)
  | 0, _ => []
  | _ + 1, [] => []
  | fuel + 1, items => items.take size :: chunks size fuel (items.drop size)

namespace Host

/-! ### Construction and reading -/

def assemble (config : HostConfig) (history : HistoryWorld) (nowMs : ℕ) : Host where
  config := config
  history := history
  closed := false
  lastNowMs := nowMs
  nextHandle := 1
  sessions := .empty
  ingress := []
  ingressBytes := 0
  egressBytes := 0
  executions := 0
  lastCombatError := none
  captures := []
  captureLens := []
  captureBytes := 0
  captureAcknowledged := 0
  lastCapture := 0

/-- A host of an empty authority. -/
def new (seed : UInt64) (config : HostConfig) (nowMs : ℕ) : Host :=
  assemble config (HistoryWorld.new seed) nowMs

def serverTick (host : Host) : ℕ := host.history.world.tick

def checkTime (nowMs : ℕ) : HostCall Unit := do
  let host ← Call.get
  Call.failIf (nowMs < host.lastNowMs) .timeRegression

/-- Refuses a closed host. -/
def checkOpen : HostCall Unit := do
  let host ← Call.get
  Call.failIf (host.closed = true) .closed

def withSession {α : Type} (peer : PeerHandle) (call : Call (ℕ × Session) HostError α) :
    HostCall α :=
  Call.focus (fun host ↦ (host.sessions.get? peer).map fun session ↦ (host.egressBytes, session))
    (fun host part ↦ { host with
      egressBytes := part.1
      sessions := host.sessions.insert peer part.2 }) call

/-! ### Frames -/

def room (host : Host) (session : Session) (frames : List LoggedFrame) : Bool :=
  let bytes := (frames.map fun frame ↦ frame.bytes.length).sum
  session.log.length + frames.length ≤ egressCaps.perPeerFrames &&
    session.logBytes + bytes ≤ egressCaps.perPeerBytes &&
    host.egressBytes + bytes ≤ egressCaps.hostBytes

def numberFrames (host : Host) : ℕ → List (List DeltaOpV2) → Result HostError (List LoggedFrame)
  | _, [] => .ok []
  | eventSeq, chunk :: rest => do
    let bytes ← encodeFrame host.config.protocol host.serverTick eventSeq chunk
    Result.failIf (eventSeq + 1 > u64Max) .counterExhausted
    let others ← numberFrames host (eventSeq + 1) rest
    pure (⟨0, some eventSeq, bytes⟩ :: others)

/-- Operations cut into frames at a session's next event sequences. -/
def chunkFrames (host : Host) (session : Session) (ops : List DeltaOpV2) :
    Result HostError (List LoggedFrame) :=
  numberFrames host session.nextEventSeq (chunks maxDeltaOps ops.length ops)

def stateFrames (host : Host) (session : Session) : Result HostError (List LoggedFrame) :=
  chunkFrames host session (session.view.fullStateOps host.history.world)

/-! ### Bindings -/

/-- A session before its first delivery. -/
def freshSession (host : Host) (handle : PeerHandle) (control : List EntityId)
    (grants : DisclosureGrants) (snapshot : Bool) : Session where
  epoch := epochOf host.config.incarnation handle
  control := control
  grants := grants
  map := .empty
  reverse := .empty
  nextNet := 1
  nextNewSeq := seqFirst
  cache := []
  cacheBytes := 0
  intentFrames := .new 80 40
  intentBytes := .new 131072 65536
  failFrames := .new 10 10
  failBytes := .new 4096 4096
  ingressFrames := 0
  ingressBytes := 0
  log := []
  logBytes := 0
  nextEventSeq := 1
  delivered := 0
  generation := 0
  resyncPending := false
  snapshot := snapshot
  nextOrdinal := 1
  nextTransfer := 1
  inFlight := none

/-- `bind`: a new session with its first state. A failed push has already counted its bytes. -/
def bind (actors : List EntityId) (grants : DisclosureGrants) (nowMs : ℕ) (snapshot : Bool) :
    HostCall PeerHandle := do
  checkOpen
  checkTime nowMs
  let control ← Call.ofResult (normalizeControl actors)
  let grants ← Call.ofResult (normalizeGrants grants)
  let host ← Call.get
  Call.failIf (host.sessions.size ≥ maxPeers) .serverBusy
  Call.failIf (host.nextHandle = u64Max) .counterExhausted
  let planned ← Call.ofResult (planMap .empty 1 grants host.history.world)
  let session := (host.freshSession host.nextHandle control grants snapshot).installMap planned.1
    planned.2
  let frames ← Call.ofResult (host.stateFrames session)
  Call.failIf (host.room session frames = false) .queueFull
  let pushed ← Call.focus (fun host : Host ↦ some (host.egressBytes, session))
    (fun host part ↦ { host with egressBytes := part.1 })
    (do pushFrames frames
        let state ← Call.get
        pure state.2)
  Call.modify fun host ↦ { host with
    sessions := host.sessions.insert host.nextHandle pushed
    nextHandle := host.nextHandle + 1
    lastNowMs := nowMs }
  pure host.nextHandle

/-! ### Resynchronization -/

/-- Stages the pending state of a session if there is room. -/
def tryResync (peer : PeerHandle) : HostCall Unit := do
  let host ← Call.get
  let session ← Call.okOr .unknownPeer (host.sessions.get? peer)
  if session.resyncPending = false then pure ()
  else do
    let frames ← Call.ofResult (host.stateFrames session)
    Call.failIf (host.room session frames = false) .queueFull
    withSession peer do
      pushFrames frames
      Call.modify fun (total, session) ↦ (total, { session with resyncPending := false })

def cancelFrame (session : Session) (cause : SnapshotCause) :
    Result HostError (Option (List UInt8)) :=
  match session.inFlight with
  | none => .ok none
  | some old => do
    let transfer ← Result.expect (nonzero old)
    let bytes ← encoded "snapshot transfer failed to encode"
      (encodeDown (.cancel session.epoch transfer cause.cancelReason))
    pure (some bytes)

def transferFrames (host : Host) (session : Session) (view : PeerView) (cursor : ℕ) :
    Result HostError (List (List UInt8)) := do
  let transfer ← Result.expect (nonzero session.nextTransfer)
  match planTransfer session.epoch transfer host.serverTick cursor snapshotSegmentsPerChunk
      (view.snapshotBody host.history.world) with
  | .ok frames => pure frames
  | .error _ => .err (.invariant "snapshot transfer failed to encode")

/-- The session a staged snapshot starts from: new grants when they narrowed, and an empty log. -/
def clearedForSnapshot (session : Session) (grants : DisclosureGrants) (map : EntityMap)
    (nextNet delivered : ℕ) (cause : SnapshotCause) : Session :=
  { (match cause with
    | .narrowed => { session with grants := grants }.installMap map nextNet
    | .resync => session) with
    log := []
    logBytes := 0
    delivered := delivered }

/-- `stage_snapshot`: determines everything, then replaces the log by one transfer. -/
def stageSnapshot (peer : PeerHandle) (grants : DisclosureGrants) (map : EntityMap) (nextNet : ℕ)
    (cause : SnapshotCause) : HostCall Unit := do
  let host ← Call.get
  let session ← Call.okOr .unknownPeer (host.sessions.get? peer)
  Call.failIf (session.nextTransfer = u64Max) .counterExhausted
  let cursor ← Call.sub session.nextEventSeq 1
  let cancel ← Call.ofResult (cancelFrame session cause)
  let frames ← Call.ofResult (host.transferFrames session ⟨grants, map⟩ cursor)
  let staged := cancel.toList ++ frames
  let bytes := (staged.map List.length).sum
  Call.failIf (staged.length > (u64Max - 1) - session.nextOrdinal) .counterExhausted
  Call.failIf (staged.length > egressCaps.perPeerFrames ∨ bytes > egressCaps.perPeerBytes)
    .queueFull
  let others ← Call.sub host.egressBytes session.logBytes
  Call.failIf (others + bytes > egressCaps.hostBytes) .queueFull
  let delivered ← Call.sub session.nextOrdinal 1
  Call.set { host with
    egressBytes := others
    sessions := host.sessions.insert peer
      (clearedForSnapshot session grants map nextNet delivered cause) }
  withSession peer do
    pushFrames (staged.map fun bytes ↦ ⟨0, none, bytes⟩)
    Call.modify fun (total, session) ↦ (total, { session with
      inFlight := some session.nextTransfer
      nextTransfer := session.nextTransfer + 1 })

def resetDelivery (session : Session) (grants : DisclosureGrants) (map : EntityMap)
    (nextNet : ℕ) : Session :=
  { { session with grants := grants }.installMap map nextNet with
    log := []
    logBytes := 0
    generation := session.generation + 1
    nextEventSeq := 1
    nextOrdinal := 1
    delivered := 0
    resyncPending := true }

/-- The operations a widening sends: none while a resync is pending. -/
def grantOps (host : Host) (session : Session) (grants : DisclosureGrants) (map : EntityMap) :
    List DeltaOpV2 :=
  if session.resyncPending then [] else wideningOps host.history.world session.view ⟨grants, map⟩

def setGrants (peer : PeerHandle) (requested : DisclosureGrants) : HostCall GrantUpdate := do
  checkOpen
  let host ← Call.get
  let session ← Call.okOr .unknownPeer (host.sessions.get? peer)
  let grants ← Call.ofResult (normalizeGrants requested)
  let planned ← Call.ofResult (planMap session.map session.nextNet grants host.history.world)
  if isNarrowing session.grants grants then
    if session.snapshot then do
      stageSnapshot peer grants planned.1 planned.2 .narrowed
      pure .snapshotStaged
    else do
      let egress ← Call.sub host.egressBytes session.logBytes
      Call.set { host with
        egressBytes := egress
        sessions := host.sessions.insert peer
          (resetDelivery session grants planned.1 planned.2) }
      tryResync peer
      pure .rebindRequired
  else do
    let frames ← Call.ofResult (host.chunkFrames session (host.grantOps session grants planned.1))
    Call.failIf (host.room session frames = false) .queueFull
    withSession peer do
      Call.modify fun (total, session) ↦
        (total, { session with grants := grants }.installMap planned.1 planned.2)
      pushFrames frames
    pure .unchanged

end Host

end Crpg.Server
