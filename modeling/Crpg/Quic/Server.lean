import Crpg.Quic.Queue
import Mathlib.Logic.Function.Basic

/-!
# The QUIC server

`crpg-net-quic/src/server.rs` with the lane tasks of `queue.rs`. The synchronous API and the tasks
of every connection meet in the state's mutex, and each part that runs under the lock is one
`Action`. What a task has done so far is its `Stage`, `Reader` or `Writer` position: `Allowed` says
which actions the tasks can take next, and the API can call anything at any time.

An endpoint keeps with its state what happened to each connection: the frames its reader offered and
the API received, the close events polled, and whether its opening failed.
-/

set_option autoImplicit false

namespace Crpg.Quic

open Crpg.Lib Crpg.Net

/-! ### The API -/

/-- Why a server call did nothing. -/
inductive ServerError
  | unknownConnection
  | notPending
  | notAccepted
  | invalidWelcome
  | closed (reason : CloseReason)
deriving DecidableEq

/-- Why a send on a channel queued nothing. -/
inductive ChannelSendError
  | send (error : SendError)
  | channelUnavailable
deriving DecidableEq

namespace State

/-- `visible`: the record of a connection the API may name. -/
def visible (state : State) (id : ℕ) : Except ServerError Conn :=
  match state.conns.get? id with
  | none => .error .unknownConnection
  | some conn =>
    if conn.phase = .hello || conn.released then .error .unknownConnection else .ok conn

/-- What polling a close event does: it gives back the connection's slot and forgets the record
unless frames it held have still to be received. -/
def polledClosed (state : State) (id : ℕ) : State :=
  let returned := { state with live := state.live - 1 }
  match state.conns.get? id with
  | none => returned
  | some conn =>
    let polled := returned.setConn id { conn with eventPolled := true }
    if (if conn.heldFrames then conn.closedReported else true) then polled.release id else polled

/-- `poll_notice`: the next notice. -/
def pollNotice (state : State) : Option ServerNotice × State :=
  match state.events with
  | [] => (none, state)
  | notice :: rest =>
    let taken := { state with events := rest }
    match notice with
    | .event (.closed id _) => (some notice, taken.polledClosed id)
    | _ => (some notice, taken)

/-- `poll_event`: the next event, unless a resume opening is at the head. -/
def pollEvent (state : State) : Option ServerEvent × State :=
  match state.events with
  | .event event :: rest =>
    let taken := { state with events := rest }
    match event with
    | .closed id _ => (some event, taken.polledClosed id)
    | .helloReceived _ _ => (some event, taken)
  | _ => (none, state)

/-- `accept`: accepts a pending hello. -/
def accept (state : State) (id : ℕ) (welcome : Welcome) : Except ServerError State :=
  match state.visible id with
  | .error fault => .error fault
  | .ok conn =>
    match conn.closeState with
    | some reason => .error (.closed reason)
    | none =>
      if conn.phase ≠ .pending then .error .notPending
      else if conn.opening ≠ .hello then .error .invalidWelcome
      else if welcome.wireVersion ≠ conn.helloVersion || !welcome.encode.isOk then
        .error .invalidWelcome
      else .ok (state.setConn id { conn with
        phase := .accepted
        answer := some (.welcome welcome)
        readerActive := true })

/-- `accept_resume`: accepts a pending resume opening. -/
def acceptResume (state : State) (id : ℕ) (answer : List UInt8) : Except ServerError State :=
  match state.visible id with
  | .error fault => .error fault
  | .ok conn =>
    match conn.closeState with
    | some reason => .error (.closed reason)
    | none =>
      if conn.phase ≠ .pending then .error .notPending
      else if conn.opening ≠ .resume || answer.isEmpty || maxDeltaFrameBytes < answer.length then
        .error .invalidWelcome
      else .ok (state.setConn id { conn with
        phase := .accepted
        answer := some (.resume answer)
        readerActive := true })

/-- A record whose application close is requested, closed. -/
def closeNow (state : State) (id : ℕ) (conn : Conn) (code : CloseCode) : Option State :=
  ((state.setConn id { conn with quinnClose := some code }).recordClose id
    (.localClose code)).map Prod.snd

/-- `refuse`: refuses a pending connection. -/
def refuse (state : State) (id : ℕ) (code : CloseCode) : Option (Except ServerError State) :=
  match state.visible id with
  | .error fault => some (.error fault)
  | .ok conn =>
    match conn.closeState with
    | some reason => some (.error (.closed reason))
    | none =>
      if conn.phase ≠ .pending then some (.error .notPending)
      else (state.closeNow id conn code).map .ok

/-- `recv_view`: the next inbound frame, of any channel or only of lane 0; the close once the
connection is closed and drained. -/
def recvView (state : State) (id : ℕ) (lane0Only : Bool) :
    Option (Except ServerError (Option Frame) × State) :=
  match state.visible id with
  | .error fault => some (.error fault, state)
  | .ok conn =>
    if conn.phase ≠ .accepted then some (.error .notAccepted, state)
    else do
      let popped ← if lane0Only then
          (state.popInboundLane0 id).map fun popped ↦
            (popped.1.map fun frame ↦ (Channel.lane0, frame), popped.2)
        else state.popInbound id
      match popped.1 with
      | some frame => some (.ok (some frame), popped.2)
      | none =>
        match popped.2.conns.get? id with
        | none => some (.error .unknownConnection, popped.2)
        | some conn =>
          if conn.inboundHead.any (· ≠ .lane0) then some (.ok none, popped.2)
          else if conn.published then
            let reported := popped.2.setConn id { conn with closedReported := true }
            some (.error (.closed (conn.reason.getD .endpointFailed)),
              if conn.eventPolled then reported.release id else reported)
          else some (.ok none, popped.2)

/-- `try_send_channel`: queues one lane frame on a channel. -/
def trySendChannel (state : State) (id : ℕ) (channel : Channel) (frame : List UInt8) :
    Except ChannelSendError State :=
  match state.visible id with
  | .error _ => .error (.send .unknownConnection)
  | .ok conn =>
    if conn.phase ≠ .accepted then .error (.send .notAccepted)
    else
      match conn.closeState with
      | some reason => .error (.send (.closed reason))
      | none =>
        if conn.framing = .v1 ∧ channel ≠ .lane0 then .error .channelUnavailable
        else if frame.isEmpty then .error (.send .emptyFrame)
        else if maxDeltaFrameBytes < frame.length then .error (.send .frameTooLarge)
        else (state.queueOutbound id channel frame).mapError .send

/-- `close`: closes a connection at once, or starts to flush it. -/
def close (state : State) (id : ℕ) (code : CloseCode) (mode : CloseMode) :
    Option (Except ServerError State) :=
  match state.visible id with
  | .error fault => some (.error fault)
  | .ok conn =>
    match conn.closeState with
    | some reason => some (.error (.closed reason))
    | none =>
      if conn.phase = .pending ∨ mode = .discard then (state.closeNow id conn code).map .ok
      else some (.ok (state.setConn id { conn with
        closing := some code
        flush := some ⟨code, false⟩ }))

/-- `admit`: takes a slot for an incoming connection, or refuses it. -/
def admitIncoming (state : State) (maxConnections : ℕ) : Bool × State :=
  if state.stopping then (false, state)
  else if maxConnections ≤ state.live then
    (false, { state with refusedAtLimit := state.refusedAtLimit + 1 })
  else (true, { state with live := state.live + 1 })

/-- `end_handshake`: ends a connection that never produced an opening notice. -/
def endHandshake (state : State) (id : Option ℕ) : State :=
  { state with
    conns := match id with
      | none => state.conns
      | some id => state.conns.erase id
    live := state.live - 1
    refusedHandshakes := state.refusedHandshakes + 1 }

end State

/-! ### Tasks -/

/-- Where the task that serves a connection is. -/
inductive Stage
  | unassigned
  | reading
  | deciding
  | starting (answer : Answer)
  | abandoned
  | control
  | flushing (code : CloseCode)
  | leaving
  | finished
deriving DecidableEq

inductive Reader
  | idle
  | running
  | waiting
  | ending
  | ended
deriving DecidableEq

inductive Writer
  | idle
  | running
  | ending
  | ended
deriving DecidableEq

structure Tasks where
  stage : Stage
  reader : Reader
  writer : Writer
deriving DecidableEq

/-- The tasks before a connection has an id. -/
def Tasks.new : Tasks := ⟨.unassigned, .idle, .idle⟩

/-- What happened to a connection. -/
structure History where
  offered : List Frame
  received : List Frame
  polled : ℕ
  failed : ℕ
deriving DecidableEq

/-- Nothing has happened. -/
def History.new : History := ⟨[], [], 0, 0⟩

/-- A server with its tasks: the state, the TLS handshakes in progress, and the tasks and the
history of every connection. -/
structure Endpoint where
  state : State
  handshakes : ℕ
  tasks : ℕ → Tasks
  history : ℕ → History

namespace Endpoint

/-- A server at its start. -/
def new (inboundCaps outboundCaps : QueueCaps) : Endpoint :=
  ⟨.new inboundCaps outboundCaps true, 0, fun _ ↦ .new, fun _ ↦ .new⟩

def withState (endpoint : Endpoint) (state : State) : Endpoint :=
  { endpoint with state := state }

/-- A task of a connection moves on. -/
def setTasks (endpoint : Endpoint) (id : ℕ) (tasks : Tasks) : Endpoint :=
  { endpoint with tasks := Function.update endpoint.tasks id tasks }

/-- The serving task of a connection moves on. -/
def setStage (endpoint : Endpoint) (id : ℕ) (stage : Stage) : Endpoint :=
  endpoint.setTasks id { endpoint.tasks id with stage := stage }

/-- The reader of a connection moves on. -/
def setReader (endpoint : Endpoint) (id : ℕ) (reader : Reader) : Endpoint :=
  endpoint.setTasks id { endpoint.tasks id with reader := reader }

/-- The writer of a connection moves on. -/
def setWriter (endpoint : Endpoint) (id : ℕ) (writer : Writer) : Endpoint :=
  endpoint.setTasks id { endpoint.tasks id with writer := writer }

/-- Something happens to a connection. -/
def setHistory (endpoint : Endpoint) (id : ℕ) (history : History) : Endpoint :=
  { endpoint with history := Function.update endpoint.history id history }

/-- A notice was taken from the queue. -/
def polled (endpoint : Endpoint) (notice : Option ServerNotice) : Endpoint :=
  match notice with
  | some (.event (.closed id _)) => endpoint.setHistory id
      { endpoint.history id with polled := (endpoint.history id).polled + 1 }
  | _ => endpoint

end Endpoint

/-! ### Steps -/

/-- What may run under the lock. -/
inductive Action
  -- The API.
  | pollEvent
  | pollNotice
  | accept (id : ℕ) (welcome : Welcome)
  | acceptResume (id : ℕ) (answer : List UInt8)
  | refuse (id : ℕ) (code : CloseCode)
  | recv (id : ℕ) (lane0Only : Bool)
  | send (id : ℕ) (channel : Channel) (frame : List UInt8)
  | close (id : ℕ) (code : CloseCode) (mode : CloseMode)
  | stop
  -- The task that serves a connection.
  | incoming
  | handshakeFailed
  | connected (framing : Framing)
  | openingFailed (id : ℕ)
  | helloRead (id : ℕ) (hello : Hello)
  | resumeRead (id : ℕ) (request : List UInt8)
  | decide (id : ℕ)
  | decisionTimeout (id : ℕ)
  | decisionLost (id : ℕ) (reason : CloseReason)
  | abandon (id : ℕ)
  | started (id : ℕ)
  | startFailed (id : ℕ) (reason : CloseReason)
  | control (id : ℕ)
  | flushed (id : ℕ)
  | lost (id : ℕ) (reason : CloseReason)
  | leave (id : ℕ)
  -- The lane reader.
  | offer (id : ℕ) (frame : Frame)
  | wake (id : ℕ)
  | readerClose (id : ℕ) (code : CloseCode)
  | readerStop (id : ℕ)
  | readerFinished (id : ℕ)
  -- The lane writer.
  | write (id : ℕ)
  | writerClose (id : ℕ)
  | writerStop (id : ℕ)
  | writerFinished (id : ℕ)
deriving DecidableEq

namespace Endpoint

def Allowed (endpoint : Endpoint) : Action → Prop
  | .handshakeFailed => 0 < endpoint.handshakes
  | .connected _ => 0 < endpoint.handshakes
  | .openingFailed id => (endpoint.tasks id).stage = .reading
  | .helloRead id _ => (endpoint.tasks id).stage = .reading
  | .resumeRead id _ => (endpoint.tasks id).stage = .reading
  | .decide id => (endpoint.tasks id).stage = .deciding
  | .decisionTimeout id => (endpoint.tasks id).stage = .deciding
  | .decisionLost id _ => (endpoint.tasks id).stage = .deciding
  | .abandon id => (endpoint.tasks id).stage = .abandoned
  | .started id => ∃ answer, (endpoint.tasks id).stage = .starting answer
  | .startFailed id _ => ∃ answer, (endpoint.tasks id).stage = .starting answer
  | .control id => (endpoint.tasks id).stage = .control
  | .flushed id => ∃ code, (endpoint.tasks id).stage = .flushing code
  | .lost id _ => (endpoint.tasks id).stage = .control
  | .leave id => (endpoint.tasks id).stage = .leaving
  | .offer id _ => (endpoint.tasks id).reader = .running
  | .wake id => (endpoint.tasks id).reader = .waiting
  | .readerClose id _ => (endpoint.tasks id).reader = .running
  | .readerStop id => (endpoint.tasks id).reader = .running
  | .readerFinished id => (endpoint.tasks id).reader = .ending
  | .write id => (endpoint.tasks id).writer = .running
  | .writerClose id => (endpoint.tasks id).writer = .running
  | .writerStop id => (endpoint.tasks id).writer = .running
  | .writerFinished id => (endpoint.tasks id).writer = .ending
  | _ => True

/-- The endpoint after a call that may be refused, which changes nothing then. -/
def unlessRefused {ε : Type} (endpoint : Endpoint) : Except ε State → Endpoint
  | .error _ => endpoint
  | .ok state => endpoint.withState state

def recordClose (endpoint : Endpoint) (id : ℕ) (reason : CloseReason) : Option Endpoint :=
  (endpoint.state.recordClose id reason).map fun recorded ↦ endpoint.withState recorded.2

/-- `recv_view`, and the frame it returned. -/
def recv (endpoint : Endpoint) (id : ℕ) (lane0Only : Bool) : Option Endpoint :=
  (endpoint.state.recvView id lane0Only).map fun viewed ↦
    match viewed.1 with
    | .ok (some frame) => (endpoint.withState viewed.2).setHistory id
        { endpoint.history id with received := (endpoint.history id).received ++ [frame] }
    | _ => endpoint.withState viewed.2

/-- The record a new connection gets, and its serving task. -/
def connected (endpoint : Endpoint) (framing : Framing) : Endpoint :=
  let state := endpoint.state
  { endpoint.setTasks state.nextId ⟨.reading, .idle, .idle⟩ with
    state := { state.setConn state.nextId { Conn.new .hello with framing := framing } with
      nextId := state.nextId + 1 }
    handshakes := endpoint.handshakes - 1 }

/-- The opening a serving task read, and its notice. -/
def opened (endpoint : Endpoint) (id : ℕ) (update : Conn → Conn) (notice : ServerNotice) :
    Endpoint :=
  let state := endpoint.state
  let recorded := match state.conns.get? id with
    | none => state
    | some conn => state.setConn id (update conn)
  (endpoint.withState { recorded with events := recorded.events ++ [notice] }).setStage id .deciding

/-- One look of `await_decision` at the record. -/
def decide (endpoint : Endpoint) (id : ℕ) : Endpoint :=
  match endpoint.state.conns.get? id with
  | none => endpoint.setStage id .abandoned
  | some conn =>
    if conn.reason.isSome then endpoint.setStage id .abandoned
    else
      match conn.answer with
      | none => endpoint
      | some answer => (endpoint.withState (endpoint.state.setConn id
          { conn with answer := none })).setStage id (.starting answer)

/-- The top of the loop of `lane_control`. -/
def control (endpoint : Endpoint) (id : ℕ) : Endpoint :=
  let state := endpoint.state
  match state.conns.get? id with
  | none => endpoint
  | some conn =>
    if conn.quinnClose.isSome then
      if conn.released then endpoint.withState { state with conns := state.conns.erase id }
      else endpoint.withState (state.setConn id { conn with quinnClose := none })
    else
      match conn.flush with
      | some ⟨code, false⟩ => (endpoint.withState (state.setConn id
          { conn with flush := some ⟨code, true⟩ })).setStage id (.flushing code)
      | _ => endpoint

/-- The end of `run_flush`. -/
def flushed (endpoint : Endpoint) (id : ℕ) : Option Endpoint :=
  match (endpoint.tasks id).stage with
  | .flushing code => (endpoint.recordClose id (.localClose code)).map fun recorded ↦
      (recorded.withState (match recorded.state.conns.get? id with
        | none => recorded.state
        | some conn => recorded.state.setConn id { conn with closeDone := true })).setStage id
          .control
  | _ => some endpoint

/-- The end of `lane_control`. -/
def leave (endpoint : Endpoint) (id : ℕ) : Endpoint :=
  let state := endpoint.state
  (endpoint.withState (match state.conns.get? id with
    | none => state
    | some conn =>
      if conn.released then { state with conns := state.conns.erase id }
      else state.setConn id { conn with controlDone := true, quinnClose := none })).setStage id
        .finished

def offer (endpoint : Endpoint) (id : ℕ) (frame : Frame) : Endpoint :=
  let offered := endpoint.state.offerInbound id frame
  ((endpoint.withState offered.2).setReader id (match offered.1 with
    | .queued => .running
    | .parked => .waiting
    | .gone => .ending)).setHistory id
      { endpoint.history id with offered := (endpoint.history id).offered ++ [frame] }

/-- A look of the waiting reader at its parked frame. -/
def wake (endpoint : Endpoint) (id : ℕ) : Endpoint :=
  match endpoint.state.conns.get? id with
  | none => endpoint.setReader id .ending
  | some conn => if conn.parked.isNone then endpoint.setReader id .running else endpoint

/-- The writer takes a frame, finishes, or waits. -/
def write (endpoint : Endpoint) (id : ℕ) : Option Endpoint :=
  match endpoint.state.conns.get? id with
  | none => some (endpoint.setWriter id .ending)
  | some conn =>
    if conn.reason.isSome then some (endpoint.setWriter id .ending)
    else (endpoint.state.popOutbound id).map fun popped ↦
      match popped.1 with
      | some _ => endpoint.withState popped.2
      | none => if conn.flush.isSome then endpoint.setWriter id .ending else endpoint

/-- One action under the lock; `none` is a subtraction that underflows. -/
def step (maxConnections : ℕ) (endpoint : Endpoint) : Action → Option Endpoint
  | .pollEvent =>
    let polled := endpoint.state.pollEvent
    some ((endpoint.withState polled.2).polled (polled.1.map .event))
  | .pollNotice =>
    let polled := endpoint.state.pollNotice
    some ((endpoint.withState polled.2).polled polled.1)
  | .accept id welcome => some (endpoint.unlessRefused (endpoint.state.accept id welcome))
  | .acceptResume id answer => some (endpoint.unlessRefused (endpoint.state.acceptResume id answer))
  | .refuse id code => (endpoint.state.refuse id code).map endpoint.unlessRefused
  | .recv id lane0Only => endpoint.recv id lane0Only
  | .send id channel frame =>
    some (endpoint.unlessRefused (endpoint.state.trySendChannel id channel frame))
  | .close id code mode => (endpoint.state.close id code mode).map endpoint.unlessRefused
  | .stop => some (endpoint.withState { endpoint.state with stopping := true })
  | .incoming =>
    let admitted := endpoint.state.admitIncoming maxConnections
    some { endpoint.withState admitted.2 with
      handshakes := if admitted.1 then endpoint.handshakes + 1 else endpoint.handshakes }
  | .handshakeFailed => some { endpoint.withState (endpoint.state.endHandshake none) with
      handshakes := endpoint.handshakes - 1 }
  | .connected framing => some (endpoint.connected framing)
  | .openingFailed id => some (((endpoint.withState (endpoint.state.endHandshake (some id))).setStage
      id .finished).setHistory id
        { endpoint.history id with failed := (endpoint.history id).failed + 1 })
  | .helloRead id hello => some (endpoint.opened id
      (fun conn ↦ { conn with
        phase := .pending, opening := .hello, helloVersion := hello.wireVersion })
      (.event (.helloReceived id hello)))
  | .resumeRead id request => some (endpoint.opened id
      (fun conn ↦ { conn with phase := .pending, opening := .resume }) (.resume id request))
  | .decide id => some (endpoint.decide id)
  | .decisionTimeout id =>
    if (endpoint.state.conns.get? id).any (·.phase = .pending) then
      endpoint.recordClose id (.localClose .authTimeout)
    else some endpoint
  | .decisionLost id reason =>
    (endpoint.recordClose id reason).map fun recorded ↦ recorded.setStage id .abandoned
  | .abandon id =>
    some ((endpoint.withState (endpoint.state.readerFinished id)).setStage id .control)
  | .started id => some (endpoint.setTasks id ⟨.control, .running, .running⟩)
  | .startFailed id reason =>
    (endpoint.recordClose id reason).map fun recorded ↦ recorded.setStage id .abandoned
  | .control id => some (endpoint.control id)
  | .flushed id => endpoint.flushed id
  | .lost id reason =>
    (endpoint.recordClose id reason).map fun recorded ↦ recorded.setStage id .leaving
  | .leave id => some (endpoint.leave id)
  | .offer id frame => some (endpoint.offer id frame)
  | .wake id => some (endpoint.wake id)
  | .readerClose id code =>
    (endpoint.recordClose id (.localClose code)).map fun recorded ↦ recorded.setReader id .ending
  | .readerStop id => some (endpoint.setReader id .ending)
  | .readerFinished id =>
    some ((endpoint.withState (endpoint.state.readerFinished id)).setReader id .ended)
  | .write id => endpoint.write id
  | .writerClose id =>
    (endpoint.recordClose id (.localClose .protocolViolation)).map fun recorded ↦
      recorded.setWriter id .ending
  | .writerStop id => some (endpoint.setWriter id .ending)
  | .writerFinished id => some ((endpoint.withState (match endpoint.state.conns.get? id with
      | none => endpoint.state
      | some conn => endpoint.state.setConn id { conn with writerFinished := true })).setWriter id
        .ended)

end Endpoint

end Crpg.Quic
