import Crpg.Quic.Server

/-!
# The invariant of the QUIC queues

What holds of an endpoint at every step: the queues of a record add up and are within their caps
(`Queues`), a connection's frames are where they were offered to (`Ordered`), a record's flags and
the tasks of its connection agree (`Life`), a forgotten connection has given back its slot
(`Absent`), and the host's totals are sums over the records (`Totals`). `Invariant` collects them,
and `Tight` says no parked frame fits.
-/

set_option autoImplicit false

namespace Crpg.Quic

open Crpg.Lib Crpg.Net

/-! ### Sizes -/

def frameBytes (frames : List Frame) : ℕ := (frames.map fun frame ↦ frame.2.length).sum

def payloadBytes (frames : List (List UInt8)) : ℕ :=
  (frames.map fun frame ↦ frame.length - frameHeaderBytes).sum

def closedNotices (id : ℕ) (events : List ServerNotice) : ℕ :=
  events.countP fun notice ↦ match notice with
    | .event (.closed found _) => found = id
    | _ => false

@[simp]
theorem frameBytes_append (first second : List Frame) :
    frameBytes (first ++ second) = frameBytes first + frameBytes second := by
  rw [frameBytes, List.map_append, List.sum_append, frameBytes, frameBytes]

@[simp]
theorem frameBytes_cons (frame : Frame) (rest : List Frame) :
    frameBytes (frame :: rest) = frame.2.length + frameBytes rest := by
  rw [frameBytes, List.map_cons, List.sum_cons, frameBytes]

@[simp]
theorem payloadBytes_append (first second : List (List UInt8)) :
    payloadBytes (first ++ second) = payloadBytes first + payloadBytes second := by
  rw [payloadBytes, List.map_append, List.sum_append, payloadBytes, payloadBytes]

@[simp]
theorem payloadBytes_cons (frame : List UInt8) (rest : List (List UInt8)) :
    payloadBytes (frame :: rest) = frame.length - frameHeaderBytes + payloadBytes rest := by
  rw [payloadBytes, List.map_cons, List.sum_cons, payloadBytes]

theorem closedNotices_append (id : ℕ) (first second : List ServerNotice) :
    closedNotices id (first ++ second) = closedNotices id first + closedNotices id second :=
  List.countP_append

theorem closedNotices_closed (id found : ℕ) (reason : CloseReason) :
    closedNotices id [.event (.closed found reason)] = if found = id then 1 else 0 := by
  simp [closedNotices, List.countP_cons]

/-! ### One connection -/

/-- The reader task runs. -/
def Reader.alive : Reader → Bool
  | idle => false
  | running => true
  | waiting => true
  | ending => true
  | ended => false

/-- The serving task has not started the lane. -/
def Stage.early : Stage → Bool
  | reading => true
  | deciding => true
  | starting _ => true
  | abandoned => true
  | _ => false

/-- The queues of a record add up and are within their caps. -/
structure Queues (inbound outbound : QueueCaps) (conn : Conn) : Prop where
  inBytes : conn.inboundBytes = frameBytes conn.inbound
  inFrames_le : conn.inbound.length ≤ inbound.perPeerFrames
  inBytes_le : conn.inboundBytes ≤ inbound.perPeerBytes
  framed : ∀ frame ∈ conn.outbound, frameHeaderBytes ≤ frame.length
  outBytes : conn.outboundBytes = payloadBytes conn.outbound
  outFrames_le : conn.outbound.length ≤ outbound.perPeerFrames
  outBytes_le : conn.outboundBytes ≤ outbound.perPeerBytes

/-- The frames a record holds. -/
def Conn.held (conn : Conn) : List Frame := conn.inbound ++ conn.parked.toList

def Ordered (conn : Conn) (history : History) : Prop :=
  history.offered = history.received ++ conn.held

/-- The flags of a record agree with the tasks of its connection and with its close notice. -/
structure Life (conn : Conn) (tasks : Tasks) (history : History) (notices : ℕ) : Prop where
  assigned : tasks.stage ≠ .unassigned
  hello_iff : conn.phase = .hello ↔ tasks.stage = .reading
  unaccepted : conn.phase ≠ .accepted →
    conn.inbound = [] ∧ conn.parked = none ∧ conn.outbound = [] ∧ conn.readerActive = false
  unanswered : conn.phase ≠ .accepted → conn.answer = none
  hello_open : conn.phase = .hello → conn.reason = none
  early : tasks.stage.early = true → tasks.reader = .idle ∧ tasks.writer = .idle
  answer : tasks.stage = .deciding → conn.answer.isSome = true → conn.readerActive = true
  starting : ∀ answer, tasks.stage = .starting answer → conn.readerActive = true
  alive : tasks.reader.alive = true → conn.readerActive = true
  parked : conn.parked.isSome = true → tasks.reader = .waiting
  silent : conn.reason.isSome = true → conn.outbound = []
  published : conn.published = true → conn.reason.isSome = true ∧ conn.readerActive = false
  drained : conn.published = true → conn.heldFrames = false → conn.inbound = []
  reported : conn.closedReported = true → conn.published = true ∧ conn.inbound = []
  polled : conn.eventPolled = true → conn.published = true
  released : conn.released = true →
    conn.published = true ∧ conn.eventPolled = true ∧ conn.inbound = []
  failed : history.failed = 0
  notices_eq : notices + history.polled = if conn.published then 1 else 0
  polled_iff : conn.eventPolled = true ↔ history.polled = 1

/-- A connection without a record: it has no id yet, or it was forgotten. -/
inductive Absent (tasks : Tasks) (history : History) (notices : ℕ) : Prop
  | unassigned (htasks : tasks = .new) (hhistory : history = .new) (hnotices : notices = 0)
  | forgotten (hassigned : tasks.stage ≠ .unassigned) (hreading : tasks.stage ≠ .reading)
      (hstarting : ∀ answer, tasks.stage ≠ .starting answer) (hreader : tasks.reader.alive = false)
      (hordered : history.offered = history.received) (hnotices : notices = 0)
      (hreturned : history.polled + history.failed = 1)

namespace Life

variable {conn : Conn} {tasks : Tasks} {history : History} {notices : ℕ}

section

variable (hlife : Life conn tasks history notices)
include hlife

theorem parked_none (hpublished : conn.published = true) : conn.parked = none := by
  by_contra hparked
  have hwaiting := hlife.parked (Option.isSome_iff_ne_none.mpr hparked)
  have hactive := hlife.alive (by rw [hwaiting]; rfl)
  rw [(hlife.published hpublished).2] at hactive
  exact absurd hactive (by decide)

theorem not_alive (hpublished : conn.published = true) : tasks.reader.alive = false := by
  by_contra halive
  have hactive := hlife.alive (Bool.not_eq_false _ ▸ halive)
  rw [(hlife.published hpublished).2] at hactive
  exact absurd hactive (by decide)

theorem not_starting (hpublished : conn.published = true) (answer : Answer) :
    tasks.stage ≠ .starting answer := by
  intro hstage
  have hactive := hlife.starting answer hstage
  rw [(hlife.published hpublished).2] at hactive
  exact absurd hactive (by decide)

theorem not_reading (hpublished : conn.published = true) : tasks.stage ≠ .reading := by
  intro hstage
  have hopen := hlife.hello_open (hlife.hello_iff.mpr hstage)
  have hreason := (hlife.published hpublished).1
  rw [hopen] at hreason
  exact absurd hreason (by decide)

/-- The record of a running reader is open for frames. -/
theorem of_active (hactive : conn.readerActive = true) :
    conn.phase = .accepted ∧ conn.published = false := by
  constructor
  · by_contra hphase
    rw [(hlife.unaccepted hphase).2.2.2] at hactive
    exact absurd hactive (by decide)
  · by_contra hpublished
    rw [(hlife.published (Bool.not_eq_false _ ▸ hpublished)).2] at hactive
    exact absurd hactive (by decide)

/-- Another position of the tasks. Assumes: it does not begin or end the reading of the opening,
and what it claims of the record holds. -/
theorem setTasks {after : Tasks} (hassigned : after.stage ≠ .unassigned)
    (hreading : after.stage = .reading ↔ tasks.stage = .reading)
    (hearly : after.stage.early = true → after.reader = .idle ∧ after.writer = .idle)
    (hanswer : after.stage = .deciding → conn.answer.isSome = true → conn.readerActive = true)
    (hstarting : ∀ answer, after.stage = .starting answer → conn.readerActive = true)
    (halive : after.reader.alive = true → conn.readerActive = true)
    (hparked : conn.parked.isSome = true → after.reader = .waiting) :
    Life conn after history notices :=
  { hlife with
    assigned := hassigned
    hello_iff := hlife.hello_iff.trans hreading.symm
    early := hearly
    answer := hanswer
    starting := hstarting
    alive := halive
    parked := hparked }

/-- The serving task moves past the lane's start. -/
theorem setStage {stage : Stage} (hfrom : tasks.stage ≠ .reading)
    (hassigned : stage ≠ .unassigned) (hreading : stage ≠ .reading)
    (hdeciding : stage ≠ .deciding) (hstarting : ∀ answer, stage ≠ .starting answer)
    (hearly : stage.early = true → tasks.reader = .idle ∧ tasks.writer = .idle) :
    Life conn { tasks with stage := stage } history notices :=
  hlife.setTasks hassigned (iff_of_false hreading hfrom) hearly
    (fun hstage ↦ absurd hstage hdeciding) (fun answer hstage ↦ absurd hstage (hstarting answer))
    hlife.alive hlife.parked

theorem setWriter {writer : Writer} (hfrom : tasks.writer ≠ .idle) :
    Life conn { tasks with writer := writer } history notices :=
  hlife.setTasks hlife.assigned Iff.rfl (fun hearly ↦ absurd (hlife.early hearly).2 hfrom)
    hlife.answer hlife.starting hlife.alive hlife.parked

/-- A reader that holds no frame back moves on. -/
theorem setReader {reader : Reader} (hfrom : tasks.reader.alive = true)
    (hparked : conn.parked.isSome = true → reader = .waiting) :
    Life conn { tasks with reader := reader } history notices := by
  refine hlife.setTasks hlife.assigned Iff.rfl (fun hearly ↦ ?_) hlife.answer hlife.starting
    (fun _ ↦ hlife.alive hfrom) hparked
  have hidle := (hlife.early hearly).1
  rw [hidle] at hfrom
  exact absurd hfrom (by decide)

end

end Life

/-! ### The host -/

/-- The host's totals are sums over the records, within their caps. -/
structure Totals (state : State) : Prop where
  inFrames : state.inboundFrames = state.conns.sum fun conn ↦ conn.inbound.length
  inBytes : state.inboundBytes = state.conns.sum fun conn ↦ conn.inboundBytes
  outFrames : state.outboundFrames = state.conns.sum fun conn ↦ conn.outbound.length
  outBytes : state.outboundBytes = state.conns.sum fun conn ↦ conn.outboundBytes
  inFrames_le : state.inboundFrames ≤ state.inboundCaps.hostFrames
  inBytes_le : state.inboundBytes ≤ state.inboundCaps.hostBytes
  outFrames_le : state.outboundFrames ≤ state.outboundCaps.hostFrames
  outBytes_le : state.outboundBytes ≤ state.outboundCaps.hostBytes

/-- The connections whose slot has not been given back. -/
def holders (endpoint : Endpoint) : Finset ℕ :=
  (Finset.range endpoint.state.nextId).filter fun id ↦
    0 < id ∧ (endpoint.history id).polled + (endpoint.history id).failed = 0

/-- A record and what belongs to it. -/
structure Present (endpoint : Endpoint) (id : ℕ) (conn : Conn) : Prop where
  queues : Queues endpoint.state.inboundCaps endpoint.state.outboundCaps conn
  ordered : Ordered conn (endpoint.history id)
  life : Life conn (endpoint.tasks id) (endpoint.history id)
    (closedNotices id endpoint.state.events)

/-- What holds of one connection. -/
structure LaneInvariant (endpoint : Endpoint) (id : ℕ) : Prop where
  present : ∀ conn, endpoint.state.conns.get? id = some conn → Present endpoint id conn
  absent : endpoint.state.conns.get? id = none →
    Absent (endpoint.tasks id) (endpoint.history id) (closedNotices id endpoint.state.events)
  unassigned_iff : (endpoint.tasks id).stage = .unassigned ↔
    endpoint.state.nextId ≤ id ∨ id = 0

/-- What holds of an endpoint at every step. -/
structure Invariant (caps : QueueCaps × QueueCaps) (endpoint : Endpoint) : Prop where
  caps_eq : (endpoint.state.inboundCaps, endpoint.state.outboundCaps) = caps
  emits : endpoint.state.emitEvents = true
  next_pos : 0 < endpoint.state.nextId
  lanes : ∀ id, LaneInvariant endpoint id
  totals : Totals endpoint.state
  live : endpoint.state.live = endpoint.handshakes + (holders endpoint).card

def Conn.Tight (caps : QueueCaps) (frames bytes : ℕ) (conn : Conn) : Prop :=
  ∀ frame, conn.parked = some frame → inboundRoom caps conn frames bytes frame.2.length = false

/-- No parked frame fits. -/
def Tight (state : State) : Prop :=
  ∀ id conn, state.conns.get? id = some conn →
    conn.Tight state.inboundCaps state.inboundFrames state.inboundBytes

end Crpg.Quic
