import Crpg.Net.Handshake
import Crpg.Net.Transport

/-!
# The queues of a QUIC endpoint

`crpg-net-quic/src/queue.rs`: the state behind the endpoint's one mutex. Every connection has a
bounded inbound queue, one parked frame that did not fit, and a bounded outbound queue; the totals
of all connections are kept beside them under caps of the whole host. Every method here runs with
the lock held, so it is one step.

A method that subtracts from a count returns `none` when the subtraction goes below zero. Wakeups
and deadlines are left out: what a woken task does is a step of its own.
-/

set_option autoImplicit false

namespace Crpg.Quic

open Crpg.Lib Crpg.Net

/-! ### Closes -/

inductive CloseCode
  | normal
  | shutdown
  | protocolViolation
  | frameTooLarge
  | helloTimeout
  | authRefused
  | versionRefused
  | serverBusy
  | authTimeout
  | sessionFenced
deriving DecidableEq

/-- How a local close treats queued outbound frames. -/
inductive CloseMode
  | flush
  | discard
deriving DecidableEq

/-- Why a connection ended. -/
inductive CloseReason
  | localClose (code : CloseCode)
  | peer (code : ℕ)
  | idleTimeout
  | transport
  | reset
  | endpointFailed
deriving DecidableEq

inductive SendError
  | unknownConnection
  | notAccepted
  | closed (reason : CloseReason)
  | emptyFrame
  | frameTooLarge
  | queueFull
deriving DecidableEq

/-! ### Connections -/

/-- Where a connection is in its opening. -/
inductive Phase
  | hello
  | pending
  | accepted
deriving DecidableEq

/-- The lane framing a connection negotiated. -/
inductive Framing
  | v1
  | v2
deriving DecidableEq

/-- Which opening a connection presented. -/
inductive Opening
  | hello
  | resume
deriving DecidableEq

/-- What the host queued in answer to an opening. -/
inductive Answer
  | welcome (welcome : Welcome)
  | resume (payload : List UInt8)
deriving DecidableEq

structure FlushRequest where
  code : CloseCode
  started : Bool
deriving DecidableEq

/-- An inbound frame with its channel. -/
abbrev Frame := Channel × List UInt8

/-- One connection's record. -/
structure Conn where
  phase : Phase
  framing : Framing
  opening : Opening
  helloVersion : UInt8
  answer : Option Answer
  inbound : List Frame
  inboundBytes : ℕ
  parked : Option Frame
  outbound : List (List UInt8)
  outboundBytes : ℕ
  discarded : ℕ
  closing : Option CloseCode
  reason : Option CloseReason
  readerActive : Bool
  published : Bool
  eventPolled : Bool
  closedReported : Bool
  heldFrames : Bool
  released : Bool
  quinnClose : Option CloseCode
  flush : Option FlushRequest
  writerFinished : Bool
  closeDone : Bool
  controlDone : Bool
deriving DecidableEq

namespace Conn

def new (phase : Phase) : Conn where
  phase := phase
  framing := .v1
  opening := .hello
  helloVersion := 0
  answer := none
  inbound := []
  inboundBytes := 0
  parked := none
  outbound := []
  outboundBytes := 0
  discarded := 0
  closing := none
  reason := none
  readerActive := false
  published := false
  eventPolled := false
  closedReported := false
  heldFrames := false
  released := false
  quinnClose := none
  flush := none
  writerFinished := false
  closeDone := false
  controlDone := false

def closeState (conn : Conn) : Option CloseReason :=
  conn.reason.or (conn.closing.map .localClose)

/-- No inbound frame queued or parked. -/
def drained (conn : Conn) : Bool := conn.inbound.isEmpty && conn.parked.isNone

def inboundHead (conn : Conn) : Option Channel := conn.inbound.head?.map Prod.fst

end Conn

/-- What the server reports about a connection. -/
inductive ServerEvent
  | helloReceived (conn : ℕ) (hello : Hello)
  | closed (conn : ℕ) (reason : CloseReason)
deriving DecidableEq

inductive ServerNotice
  | event (event : ServerEvent)
  | resume (conn : ℕ) (request : List UInt8)
deriving DecidableEq

/-- What an offer of one complete frame did. -/
inductive Offer
  | queued
  | parked
  | gone
deriving DecidableEq

/-! ### The state -/

/-- Everything both sides share. -/
structure State where
  conns : BTreeMap ℕ Conn
  inboundCaps : QueueCaps
  outboundCaps : QueueCaps
  inboundFrames : ℕ
  inboundBytes : ℕ
  outboundFrames : ℕ
  outboundBytes : ℕ
  emitEvents : Bool
  events : List ServerNotice
  live : ℕ
  refusedHandshakes : ℕ
  refusedAtLimit : ℕ
  nextId : ℕ
  stopping : Bool

/-- An unsigned subtraction; `none` is an underflow. -/
def checkedSub (left right : ℕ) : Option ℕ := if right ≤ left then some (left - right) else none

/-- A checked addition that stays within a cap. -/
def fits (held more cap : ℕ) : Bool := held + more ≤ usizeMax && held + more ≤ cap

/-- `inbound_room`: a frame of a length fits a connection's queue and the host. -/
def inboundRoom (caps : QueueCaps) (conn : Conn) (hostFrames hostBytes len : ℕ) : Bool :=
  conn.inbound.length < caps.perPeerFrames && fits conn.inboundBytes len caps.perPeerBytes &&
    hostFrames < caps.hostFrames && fits hostBytes len caps.hostBytes

def framed (payload : List UInt8) (cap : ℕ) : Except FrameError (List UInt8) :=
  (frameHeader payload.length cap).map fun header ↦ header.toList ++ payload

def framedChannel (channel : Channel) (payload : List UInt8) (cap : ℕ) :
    Except FrameError (List UInt8) :=
  (channelFrameHeader channel payload.length cap).map fun header ↦ header.toList ++ payload

namespace State

/-- An endpoint without connections. -/
def new (inboundCaps outboundCaps : QueueCaps) (emitEvents : Bool) : State where
  conns := .empty
  inboundCaps := inboundCaps
  outboundCaps := outboundCaps
  inboundFrames := 0
  inboundBytes := 0
  outboundFrames := 0
  outboundBytes := 0
  emitEvents := emitEvents
  events := []
  live := 0
  refusedHandshakes := 0
  refusedAtLimit := 0
  nextId := 1
  stopping := false

/-- The state with a record in its place. -/
def setConn (state : State) (id : ℕ) (conn : Conn) : State :=
  { state with conns := state.conns.insert id conn }

/-- A frame queued behind the others of its connection. -/
def enqueue (state : State) (id : ℕ) (conn : Conn) (frame : Frame) : State :=
  { state.setConn id { conn with
      inbound := conn.inbound ++ [frame]
      inboundBytes := conn.inboundBytes + frame.2.length } with
    inboundFrames := state.inboundFrames + 1
    inboundBytes := state.inboundBytes + frame.2.length }

/-- `offer_inbound`: queues or parks one complete frame. -/
def offerInbound (state : State) (id : ℕ) (frame : Frame) : Offer × State :=
  match state.conns.get? id with
  | none => (.gone, state)
  | some conn =>
    if inboundRoom state.inboundCaps conn state.inboundFrames state.inboundBytes frame.2.length then
      (.queued, state.enqueue id conn frame)
    else (.parked, state.setConn id { conn with parked := some frame })

/-- The parked frame of one connection, let in when it fits. -/
def promote (state : State) (id : ℕ) : State :=
  match state.conns.get? id with
  | none => state
  | some conn =>
    match conn.parked with
    | none => state
    | some frame =>
      if inboundRoom state.inboundCaps conn state.inboundFrames state.inboundBytes
          frame.2.length then state.enqueue id { conn with parked := none } frame
      else state

/-- `promote_parked`: every connection in ascending order. -/
def promoteParked (state : State) : State := state.conns.keys.foldl promote state

/-- `pop_inbound`: takes the next inbound frame, then lets parked frames in. -/
def popInbound (state : State) (id : ℕ) : Option (Option Frame × State) :=
  match state.conns.get? id with
  | none => some (none, state)
  | some conn =>
    match conn.inbound with
    | [] => some (none, state)
    | frame :: rest => do
      let held ← checkedSub conn.inboundBytes frame.2.length
      let frames ← checkedSub state.inboundFrames 1
      let bytes ← checkedSub state.inboundBytes frame.2.length
      let popped := { state.setConn id { conn with inbound := rest, inboundBytes := held } with
        inboundFrames := frames
        inboundBytes := bytes }
      some (some frame, popped.promoteParked)

/-- `pop_inbound_lane0`: takes the next inbound frame only when it is a lane-0 frame. -/
def popInboundLane0 (state : State) (id : ℕ) : Option (Option (List UInt8) × State) :=
  if (state.conns.get? id).bind Conn.inboundHead = some .lane0 then
    (state.popInbound id).map fun popped ↦ (popped.1.map Prod.snd, popped.2)
  else some (none, state)

/-- `queue_outbound`: queues one outbound payload behind its header. An error queues nothing. -/
def queueOutbound (state : State) (id : ℕ) (channel : Channel) (payload : List UInt8) :
    Except SendError State :=
  match state.conns.get? id with
  | none => .error .unknownConnection
  | some conn =>
    if (conn.outbound.length < state.outboundCaps.perPeerFrames &&
        fits conn.outboundBytes payload.length state.outboundCaps.perPeerBytes &&
        state.outboundFrames < state.outboundCaps.hostFrames &&
        fits state.outboundBytes payload.length state.outboundCaps.hostBytes) = false then
      .error .queueFull
    else
      match (match conn.framing with
        | .v1 => framed payload usizeMax
        | .v2 => framedChannel channel payload usizeMax) with
      | .error _ => .error .frameTooLarge
      | .ok frame => .ok { state.setConn id { conn with
          outbound := conn.outbound ++ [frame]
          outboundBytes := conn.outboundBytes + payload.length } with
        outboundFrames := state.outboundFrames + 1
        outboundBytes := state.outboundBytes + payload.length }

/-- `pop_outbound`: the writer takes the next outbound frame. -/
def popOutbound (state : State) (id : ℕ) : Option (Option (List UInt8) × State) :=
  match state.conns.get? id with
  | none => some (none, state)
  | some conn =>
    match conn.outbound with
    | [] => some (none, state)
    | frame :: rest => do
      let len ← checkedSub frame.length frameHeaderBytes
      let held ← checkedSub conn.outboundBytes len
      let frames ← checkedSub state.outboundFrames 1
      let bytes ← checkedSub state.outboundBytes len
      some (some frame, { state.setConn id { conn with
          outbound := rest, outboundBytes := held } with
        outboundFrames := frames
        outboundBytes := bytes })

def discardOutbound (state : State) (id : ℕ) : Option State :=
  match state.conns.get? id with
  | none => some state
  | some conn => do
    let frames ← checkedSub state.outboundFrames conn.outbound.length
    let bytes ← checkedSub state.outboundBytes conn.outboundBytes
    some { state.setConn id { conn with
        outbound := []
        outboundBytes := 0
        discarded := conn.discarded + conn.outbound.length } with
      outboundFrames := frames
      outboundBytes := bytes }

/-- `try_publish`: makes a recorded close visible once no reader can add frames. -/
def tryPublish (state : State) (id : ℕ) : State :=
  match state.conns.get? id with
  | none => state
  | some conn =>
    match conn.reason with
    | none => state
    | some reason =>
      if conn.readerActive || conn.published then state
      else { state.setConn id { conn with heldFrames := !conn.drained, published := true } with
        events := if state.emitEvents && conn.phase ≠ .hello
          then state.events ++ [.event (.closed id reason)] else state.events }

/-- `record_close`: records why the connection ended, the first time, discards what can no longer be
sent and publishes the close. -/
def recordClose (state : State) (id : ℕ) (reason : CloseReason) : Option (Bool × State) :=
  match state.conns.get? id with
  | none => some (false, state)
  | some conn =>
    if conn.reason.isSome then some (false, state)
    else do
      let discarded ← (state.setConn id { conn with reason := some reason }).discardOutbound id
      some (true, discarded.tryPublish id)

/-- `release`: forgets a connection for the API; the record goes at once unless its close still has
to be sent. -/
def release (state : State) (id : ℕ) : State :=
  match state.conns.get? id with
  | none => state
  | some conn =>
    if conn.quinnClose.isNone then { state with conns := state.conns.erase id }
    else state.setConn id { conn with released := true }

/-- `reader_finished`: ends the reader's claim on the connection and publishes a recorded close. -/
def readerFinished (state : State) (id : ℕ) : State :=
  match state.conns.get? id with
  | none => state
  | some conn => (state.setConn id { conn with readerActive := false }).tryPublish id

end State

end Crpg.Quic
