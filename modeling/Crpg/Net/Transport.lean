import Mathlib.Data.List.Rotate
import Crpg.Core.Fixed
import Crpg.Core.Rng
import Crpg.Net.Protocol

/-!
# The simulated transport

`crpg-net/src/sim.rs`: the byte fabric between endpoints in one process. A send stages a datagram
under token budgets and queue caps, a tick pumps the staged datagrams of every peer through a fault
schedule into its ready queue, and a receive takes the next ready datagram and releases its
accounting. Every unsigned subtraction that could go below zero, and a redraw that has no end, is a
call that does not return.
-/

set_option autoImplicit false

namespace Crpg.Net

open Crpg.Core Crpg.Lib

/-! ### Bounds and budgets -/

/-- `usize::MAX`. -/
def usizeMax : ℕ := 18446744073709551615

/-- `POLICY_PROOF_PEERS`: the most peers. -/
def policyProofPeers : ℕ := 8

/-- Bounded queue depths: per-peer and whole-host ceilings. -/
structure QueueCaps where
  perPeerFrames : ℕ
  perPeerBytes : ℕ
  hostFrames : ℕ
  hostBytes : ℕ
deriving DecidableEq

/-- Token bucket rates of the ingress budgets. -/
structure RateCaps where
  framesPerSec : ℕ
  burstFrames : ℕ
  bytesPerSec : ℕ
  burstBytes : ℕ
deriving DecidableEq

/-- `u64::saturating_mul`. -/
def saturatingMul (left right : ℕ) : ℕ := min u64Max (left * right)

/-- An integer token bucket over injected time, in thousandths of a token. -/
structure TokenBucket where
  capacityMt : ℕ
  refillMtPerMs : ℕ
  availableMt : ℕ
  lastMs : ℕ
deriving DecidableEq

namespace TokenBucket

def new (burst perSec : ℕ) : TokenBucket :=
  ⟨saturatingMul burst 1000, perSec, saturatingMul burst 1000, 0⟩

/-- Accrues the credit of the elapsed time and spends an amount if it is there. -/
def consume (bucket : TokenBucket) (nowMs amount : ℕ) : Bool × TokenBucket :=
  let credit := saturatingMul (nowMs - bucket.lastMs) bucket.refillMtPerMs
  let available := min (saturatingAdd u64Max bucket.availableMt credit) bucket.capacityMt
  let last := max bucket.lastMs nowMs
  let need := saturatingMul amount 1000
  if need ≤ available then (true, { bucket with availableMt := available - need, lastMs := last })
  else (false, { bucket with availableMt := available, lastMs := last })

end TokenBucket

/-! ### Faults -/

/-- Reproducible delivery faults. -/
structure FaultSchedule where
  lossEvery : Option ℕ
  dupEvery : Option ℕ
  reorderDepth : ℕ
  seed : UInt64
deriving DecidableEq

/-- Whether the datagram of a number is affected. -/
def periodic (every : Option ℕ) (counter : ℕ) : Bool :=
  match every with
  | none => false
  | some 0 => false
  | some period => counter % period = 0

/-- One pumped datagram, and whether it still counts against the caps. -/
structure ReadyDatagram where
  bytes : List UInt8
  counted : Bool
deriving DecidableEq

/-- The loop of `window_shuffle` over the rest of a batch: each block rotates left by a drawn
amount. The fuel is the length of the batch. -/
def shuffleBlocks (block : ℕ) : ℕ → Pcg32 → List ReadyDatagram → Option (List ReadyDatagram × Pcg32)
  | 0, stream, batch => some (batch, stream)
  | fuel + 1, stream, batch =>
    let front := batch.take block
    if 1 < front.length then
      -- The bound is the length as a `u32`, which the source expects not to be zero.
      if front.length % 2 ^ 32 = 0 then none
      else (stream.genRangeU32 (UInt32.ofNat front.length)).bind fun drawn ↦
        (shuffleBlocks block fuel drawn.2 (batch.drop block)).map fun shuffled ↦
          (front.rotate drawn.1.toNat ++ shuffled.1, shuffled.2)
    else (shuffleBlocks block fuel stream (batch.drop block)).map fun shuffled ↦
      (front ++ shuffled.1, shuffled.2)

def windowShuffle (stream : Pcg32) (batch : List ReadyDatagram) (depth : ℕ) :
    Option (List ReadyDatagram × Pcg32) :=
  shuffleBlocks (max (saturatingAdd usizeMax depth 1) 1) batch.length stream batch

/-! ### The fabric -/

abbrev PeerId := ℕ

structure PeerEntry where
  pending : List (List UInt8)
  ready : List ReadyDatagram
  stagedFrames : ℕ
  stagedBytes : ℕ
  frameBudget : TokenBucket
  byteBudget : TokenBucket
  datagrams : ℕ
deriving DecidableEq

/-- The fabric. -/
structure InMemoryTransport where
  caps : QueueCaps
  rates : RateCaps
  clock : ℕ
  peers : BTreeMap PeerId PeerEntry
  nextPeer : ℕ
  stagedHostFrames : ℕ
  stagedHostBytes : ℕ
  faultSeed : Option UInt64
  faultRng : DeterministicRng
deriving DecidableEq

namespace PeerEntry

/-- One staged datagram through the schedule: dropped, or delivered, or delivered twice. -/
def pumpOne (faults : FaultSchedule) (state : ℕ × List ReadyDatagram) (bytes : List UInt8) :
    ℕ × List ReadyDatagram :=
  let number := (state.1 + 1) % 2 ^ 64
  if periodic faults.lossEvery number then (number, state.2)
  else if periodic faults.dupEvery number then
    (number, state.2 ++ [⟨bytes, false⟩, ⟨bytes, true⟩])
  else (number, state.2 ++ [⟨bytes, true⟩])

def pump (faults : FaultSchedule) (entry : PeerEntry) (stream : Pcg32) :
    Option (PeerEntry × Pcg32) :=
  let pumped := entry.pending.foldl (pumpOne faults) (entry.datagrams, [])
  let shuffled := if 0 < faults.reorderDepth ∧ 1 < pumped.2.length then
      windowShuffle stream pumped.2 faults.reorderDepth
    else some (pumped.2, stream)
  shuffled.map fun batch ↦
    ({ entry with
        pending := []
        ready := entry.ready ++ batch.1
        datagrams := pumped.1 }, batch.2)

end PeerEntry

namespace InMemoryTransport

/-- An empty fabric. -/
def new (caps : QueueCaps) (rates : RateCaps) (clock : ℕ) : InMemoryTransport where
  caps := caps
  rates := rates
  clock := clock
  peers := .empty
  nextPeer := 0
  stagedHostFrames := 0
  stagedHostBytes := 0
  faultSeed := none
  faultRng := .fromSeed 0

def addPeer (transport : InMemoryTransport) : Except RejectionCode (PeerId × InMemoryTransport) :=
  if transport.peers.size ≥ policyProofPeers then .error .serverBusy
  else if transport.nextPeer + 1 > u32Max then .error .serverBusy
  else .ok (transport.nextPeer, { transport with
    nextPeer := transport.nextPeer + 1
    peers := transport.peers.insert transport.nextPeer
      { pending := []
        ready := []
        stagedFrames := 0
        stagedBytes := 0
        frameBudget := .new transport.rates.burstFrames transport.rates.framesPerSec
        byteBudget := .new transport.rates.burstBytes transport.rates.bytesPerSec
        datagrams := 0 } })

/-- Drops a peer with its staged accounting. -/
def removePeer (transport : InMemoryTransport) (peer : PeerId) : InMemoryTransport :=
  match transport.peers.get? peer with
  | none => transport
  | some entry => { transport with
      peers := transport.peers.erase peer
      stagedHostFrames := transport.stagedHostFrames - entry.stagedFrames
      stagedHostBytes := transport.stagedHostBytes - entry.stagedBytes }

/-- The queue checks of a send: checked additions, then the four ceilings. -/
def hasRoom (transport : InMemoryTransport) (entry : PeerEntry) (size : ℕ) : Bool :=
  entry.stagedFrames + 1 ≤ usizeMax && entry.stagedBytes + size ≤ usizeMax &&
    transport.stagedHostFrames + 1 ≤ usizeMax && transport.stagedHostBytes + size ≤ usizeMax &&
    entry.stagedFrames + 1 ≤ transport.caps.perPeerFrames &&
    entry.stagedBytes + size ≤ transport.caps.perPeerBytes &&
    transport.stagedHostFrames + 1 ≤ transport.caps.hostFrames &&
    transport.stagedHostBytes + size ≤ transport.caps.hostBytes

/-- Stages one datagram. Both budgets deduct on every attempt. -/
def sendTo (transport : InMemoryTransport) (peer : PeerId) (bytes : List UInt8) :
    Except RejectionCode Unit × InMemoryTransport :=
  match transport.peers.get? peer with
  | none => (.error .unauthenticated, transport)
  | some entry =>
    let frames := entry.frameBudget.consume transport.clock 1
    let amount := entry.byteBudget.consume transport.clock bytes.length
    let charged := { entry with frameBudget := frames.2, byteBudget := amount.2 }
    let refused := { transport with peers := transport.peers.insert peer charged }
    if frames.1 = false ∨ amount.1 = false then (.error .rateLimited, refused)
    else if bytes.length > maxDeltaFrameBytes then (.error .frameTooLarge, refused)
    else if transport.hasRoom entry bytes.length = false then (.error .queueFull, refused)
    else (.ok (), { transport with
      peers := transport.peers.insert peer { charged with
        stagedFrames := entry.stagedFrames + 1
        stagedBytes := entry.stagedBytes + bytes.length
        pending := entry.pending ++ [bytes] }
      stagedHostFrames := transport.stagedHostFrames + 1
      stagedHostBytes := transport.stagedHostBytes + bytes.length })

/-- Takes the next pumped datagram, releasing its accounting; `none` is an underflow. -/
def recvFrom (transport : InMemoryTransport) (peer : PeerId) :
    Option (Option (List UInt8) × InMemoryTransport) :=
  match transport.peers.get? peer with
  | none => some (none, transport)
  | some entry =>
    match entry.ready with
    | [] => some (none, transport)
    | datagram :: rest =>
      if datagram.counted then
        if 1 ≤ entry.stagedFrames ∧ datagram.bytes.length ≤ entry.stagedBytes ∧
            1 ≤ transport.stagedHostFrames ∧
            datagram.bytes.length ≤ transport.stagedHostBytes then
          some (some datagram.bytes, { transport with
            peers := transport.peers.insert peer { entry with
              ready := rest
              stagedFrames := entry.stagedFrames - 1
              stagedBytes := entry.stagedBytes - datagram.bytes.length }
            stagedHostFrames := transport.stagedHostFrames - 1
            stagedHostBytes := transport.stagedHostBytes - datagram.bytes.length })
        else none
      else some (some datagram.bytes, { transport with
        peers := transport.peers.insert peer { entry with ready := rest } })

def pumpAll (faults : FaultSchedule) : List (PeerId × PeerEntry) →
    BTreeMap PeerId PeerEntry × Pcg32 → Option (BTreeMap PeerId PeerEntry × Pcg32)
  | [], state => some state
  | (peer, entry) :: rest, state =>
    (entry.pump faults state.2).bind fun pumped ↦
      pumpAll faults rest (state.1.insert peer pumped.1, pumped.2)

/-- Moves every peer's staged datagrams through the faults into its ready queue. -/
def tick (transport : InMemoryTransport) (faults : FaultSchedule) : Option InMemoryTransport :=
  let rng := if transport.faultSeed ≠ some faults.seed then .fromSeed faults.seed
    else transport.faultRng
  (pumpAll faults transport.peers.entries (transport.peers, rng.stream "net-fault")).map
    fun pumped ↦ { transport with
      peers := pumped.1
      faultSeed := some faults.seed
      faultRng := rng.setStream "net-fault" pumped.2 }

end InMemoryTransport

/-- The operations of a fabric. -/
inductive TransportOp
  | addPeer
  | removePeer (peer : PeerId)
  | sendTo (peer : PeerId) (bytes : List UInt8)
  | recvFrom (peer : PeerId)
  | tick (faults : FaultSchedule)
  | setClock (now : ℕ)
deriving DecidableEq

/-- One operation; a rejected admission leaves the fabric as it is. -/
def InMemoryTransport.step (transport : InMemoryTransport) : TransportOp → Option InMemoryTransport
  | .addPeer => match transport.addPeer with
    | .ok admitted => some admitted.2
    | .error _ => some transport
  | .removePeer peer => some (transport.removePeer peer)
  | .sendTo peer bytes => some (transport.sendTo peer bytes).2
  | .recvFrom peer => (transport.recvFrom peer).map Prod.snd
  | .tick faults => transport.tick faults
  | .setClock now => some { transport with clock := now }

end Crpg.Net
