import Crpg.Quic.QueueFrames

/-!
# Runs of the QUIC server

Every action that is allowed returns and keeps `Safe`, so `Safe` holds at every endpoint a run
reaches. The last section reads it as what the queues promise: the totals are the sums, the caps
hold, the frames of a connection arrive in order, no parked frame that fits stays parked, a close is
reported once and last, and a slot is given back once.
-/

set_option autoImplicit false

namespace Crpg.Quic

open Crpg.Lib Crpg.Net

variable {caps : QueueCaps × QueueCaps}

/-! ### Calls of the API -/

variable {id : ℕ} {conn : Conn}

/-- The records the API may name. -/
theorem State.visible_eq_ok_iff {state : State} : state.visible id = .ok conn ↔
      state.conns.get? id = some conn ∧ conn.phase ≠ .hello ∧ conn.released = false := by
  unfold State.visible
  cases hget : state.conns.get? id with
  | none => simp
  | some found =>
    simp only [Option.some.injEq]
    split_ifs with hhidden
    · rw [Bool.or_eq_true, decide_eq_true_eq] at hhidden
      constructor
      · exact fun hok ↦ nomatch hok
      · rintro ⟨rfl, hphase, hreleased⟩
        rw [hreleased] at hhidden
        exact absurd (hhidden.resolve_right Bool.false_ne_true) hphase
    · rw [Bool.or_eq_true, decide_eq_true_eq, not_or, Bool.not_eq_true] at hhidden
      rw [Except.ok.injEq]
      constructor
      · rintro rfl
        exact ⟨rfl, hhidden⟩
      · exact fun hfound ↦ hfound.1

/-- A record the API may not name is unknown to it. -/
theorem State.visible_error {state : State} {fault : ServerError}
    (hvisible : state.visible id = .error fault) : fault = .unknownConnection := by
  unfold State.visible at hvisible
  cases hget : state.conns.get? id with
  | none =>
    rw [hget] at hvisible
    exact (Except.error.inj hvisible).symm
  | some found =>
    rw [hget] at hvisible
    simp only at hvisible
    split_ifs at hvisible
    exact (Except.error.inj hvisible).symm

def State.reportClosed (state : State) (id : ℕ) (conn : Conn) : State :=
  if conn.eventPolled then (state.setConn id { conn with closedReported := true }).release id
  else state.setConn id { conn with closedReported := true }

variable {endpoint : Endpoint}

section

variable (hsafe : Safe caps endpoint)
include hsafe

/-- What a receive takes from the queue: its head, unless only lane 0 is wanted. -/
theorem Safe.popView (hget : endpoint.state.conns.get? id = some conn) (lane0Only : Bool) :
    (∃ frame rest, conn.inbound = frame :: rest ∧
      (if lane0Only then (endpoint.state.popInboundLane0 id).map fun popped ↦
          (popped.1.map fun frame ↦ (Channel.lane0, frame), popped.2)
        else endpoint.state.popInbound id) =
          some (some frame, (endpoint.state.dequeued id conn frame rest).promoteParked)) ∨
    ((conn.inbound = [] ∨ conn.inboundHead.any (· ≠ .lane0) = true) ∧
      (if lane0Only then (endpoint.state.popInboundLane0 id).map fun popped ↦
          (popped.1.map fun frame ↦ (Channel.lane0, frame), popped.2)
        else endpoint.state.popInbound id) = some (none, endpoint.state)) := by
  have hinv := hsafe.invariant
  have hqueues := ((hinv.lanes id).present conn hget).queues
  cases hinbound : conn.inbound with
  | nil =>
    right
    refine ⟨.inl rfl, ?_⟩
    have hhead : conn.inboundHead = none := by
      rw [Conn.inboundHead, hinbound]
      rfl
    cases lane0Only with
    | false => exact State.popInbound_nil hget hinbound
    | true =>
      rw [if_pos rfl, State.popInboundLane0, hget, Option.bind_some, hhead, if_neg (by simp)]
      rfl
  | cons frame rest =>
    have hhead : conn.inboundHead = some frame.1 := by
      rw [Conn.inboundHead, hinbound]
      rfl
    have hpop := State.popInbound_cons hinv.totals hqueues hget hinbound
    cases lane0Only with
    | false => exact .inl ⟨frame, rest, rfl, hpop⟩
    | true =>
      rw [if_pos rfl, State.popInboundLane0, hget, Option.bind_some, hhead]
      by_cases hlane : frame.1 = .lane0
      · left
        refine ⟨frame, rest, rfl, ?_⟩
        rw [if_pos (congrArg some hlane), hpop]
        obtain ⟨channel, payload⟩ := frame
        rw [show channel = .lane0 from hlane]
        rfl
      · right
        refine ⟨.inr ?_, ?_⟩
        · simpa using hlane
        · rw [if_neg (fun hsome ↦ hlane (Option.some.inj hsome))]
          rfl

/-- What a receive returns. -/
theorem Safe.recvView_cases (id : ℕ) (lane0Only : Bool) :
    (∃ fault, endpoint.state.recvView id lane0Only = some (.error fault, endpoint.state) ∧
      ∀ reason, fault ≠ .closed reason) ∨
    (∃ conn frame rest, endpoint.state.conns.get? id = some conn ∧ conn.inbound = frame :: rest ∧
      endpoint.state.recvView id lane0Only =
        some (.ok (some frame), (endpoint.state.dequeued id conn frame rest).promoteParked)) ∨
    endpoint.state.recvView id lane0Only = some (.ok none, endpoint.state) ∨
    (∃ conn, endpoint.state.conns.get? id = some conn ∧ conn.published = true ∧
      conn.inbound = [] ∧ endpoint.state.recvView id lane0Only =
        some (.error (.closed (conn.reason.getD .endpointFailed)),
          endpoint.state.reportClosed id conn)) := by
  unfold State.recvView
  cases hvisible : endpoint.state.visible id with
  | error fault =>
    left
    refine ⟨fault, rfl, fun reason hfault ↦ ?_⟩
    rw [State.visible_error hvisible] at hfault
    exact nomatch hfault
  | ok conn =>
    obtain ⟨hget, -, -⟩ := State.visible_eq_ok_iff.mp hvisible
    simp only
    by_cases hphase : conn.phase = .accepted
    · rw [if_neg (not_not.mpr hphase)]
      right
      rcases hsafe.popView hget lane0Only with ⟨frame, rest, hinbound, hpop⟩ | ⟨hhead, hpop⟩
      · left
        refine ⟨conn, frame, rest, hget, hinbound, ?_⟩
        cases lane0Only with
        | false => exact congrArg (Option.bind · _) hpop
        | true => exact congrArg (Option.bind · _) hpop
      · right
        have hnone : ∀ view : Option Frame × State →
            Option (Except ServerError (Option Frame) × State),
            (if lane0Only then ((endpoint.state.popInboundLane0 id).map fun popped ↦
              (popped.1.map fun frame ↦ (Channel.lane0, frame), popped.2)) >>= view
              else endpoint.state.popInbound id >>= view) = view (none, endpoint.state) := by
          intro view
          cases lane0Only with
          | false => exact congrArg (Option.bind · view) hpop
          | true => exact congrArg (Option.bind · view) hpop
        rw [hnone]
        simp only [hget]
        by_cases hother : conn.inboundHead.any (· ≠ .lane0) = true
        · left
          rw [if_pos hother]
        · rw [if_neg hother]
          by_cases hpublished : conn.published = true
          · right
            refine ⟨conn, rfl, hpublished, hhead.resolve_right hother, ?_⟩
            rw [if_pos hpublished]
            rfl
          · left
            rw [if_neg hpublished]
    · left
      rw [if_pos hphase]
      exact ⟨.notAccepted, rfl, fun reason hfault ↦ nomatch hfault⟩

/-- Reporting the close to the receiver keeps `Safe`. -/
theorem Safe.reportClosed (hget : endpoint.state.conns.get? id = some conn)
    (hpublished : conn.published = true) (hinbound : conn.inbound = []) :
    Safe caps (endpoint.withState (endpoint.state.reportClosed id conn)) := by
  have hlife := ((hsafe.invariant.lanes id).present conn hget).life
  have hreported : Safe caps (endpoint.withState
      (endpoint.state.setConn id { conn with closedReported := true })) :=
    hsafe.setConn hget ⟨rfl, rfl, rfl, rfl, rfl⟩
      { hlife with reported := fun _ ↦ ⟨hpublished, hinbound⟩ }
  unfold State.reportClosed
  split_ifs with hpolled
  · have hfound : (endpoint.state.setConn id { conn with closedReported := true }).conns.get? id =
        some { conn with closedReported := true } := BTreeMap.get?_insert_self ..
    exact hreported.release hfound hpublished hpolled hinbound
  · exact hreported

/-- A receive returns and keeps `Safe`. -/
theorem Safe.recv (id : ℕ) (lane0Only : Bool) :
    ∃ next, endpoint.recv id lane0Only = some next ∧ Safe caps next := by
  unfold Endpoint.recv
  rcases hsafe.recvView_cases id lane0Only with ⟨fault, hview, -⟩ |
    ⟨conn, frame, rest, hget, hinbound, hview⟩ | hview | ⟨conn, hget, hpublished, hinbound, hview⟩
  · rw [hview]
    exact ⟨_, rfl, hsafe⟩
  · rw [hview]
    exact ⟨_, rfl, hsafe.received hget hinbound⟩
  · rw [hview]
    exact ⟨_, rfl, hsafe⟩
  · rw [hview]
    exact ⟨_, rfl, hsafe.reportClosed hget hpublished hinbound⟩

/-! ### Notices are polled -/

theorem Safe.takeNotice {notice : ServerNotice} {rest : List ServerNotice}
    (hevents : endpoint.state.events = notice :: rest)
    (hnotice : ∀ id, closedNotices id [notice] = 0) :
    Safe caps (endpoint.withState { endpoint.state with events := rest }) := by
  apply hsafe.setEvents
  intro id
  rw [hevents, closedNotices_cons, hnotice id, Nat.zero_add]

theorem Safe.pollNotice : Safe caps
      ((endpoint.withState endpoint.state.pollNotice.2).polled endpoint.state.pollNotice.1) := by
  unfold State.pollNotice
  cases hevents : endpoint.state.events with
  | nil => exact hsafe
  | cons notice rest =>
    cases notice with
    | event event =>
      cases event with
      | helloReceived id hello => exact hsafe.takeNotice hevents fun _ ↦ rfl
      | closed id reason => exact hsafe.polledClosed hevents
    | resume id request => exact hsafe.takeNotice hevents fun _ ↦ rfl

theorem Safe.pollEvent : Safe caps ((endpoint.withState endpoint.state.pollEvent.2).polled
      (endpoint.state.pollEvent.1.map .event)) := by
  unfold State.pollEvent
  cases hevents : endpoint.state.events with
  | nil => exact hsafe
  | cons notice rest =>
    cases notice with
    | event event =>
      cases event with
      | helloReceived id hello => exact hsafe.takeNotice hevents fun _ ↦ rfl
      | closed id reason => exact hsafe.polledClosed hevents
    | resume id request => exact hsafe

/-! ### Connections are accepted and closed -/

theorem Safe.accepted (hget : endpoint.state.conns.get? id = some conn)
    (hphase : conn.phase = .pending) (hopen : conn.reason = none) (answer : Answer) :
    Safe caps (endpoint.withState (endpoint.state.setConn id { conn with
      phase := .accepted, answer := some answer, readerActive := true })) := by
  have hlife := ((hsafe.invariant.lanes id).present conn hget).life
  have hnot : ¬conn.published = true := by
    intro hpublished
    have hreason := (hlife.published hpublished).1
    rw [hopen] at hreason
    exact absurd hreason Bool.false_ne_true
  have hreading : (endpoint.tasks id).stage ≠ .reading := by
    intro hstage
    have hhello := hlife.hello_iff.mpr hstage
    rw [hphase] at hhello
    exact absurd hhello (by decide)
  have hhello : Phase.accepted ≠ .hello := by decide
  refine hsafe.setConn hget ⟨rfl, rfl, rfl, rfl, rfl⟩ ?_
  exact { hlife with
    hello_iff := iff_of_false hhello hreading
    unaccepted := fun haccepted ↦ absurd rfl haccepted
    unanswered := fun haccepted ↦ absurd rfl haccepted
    hello_open := fun hphase ↦ absurd hphase hhello
    answer := fun _ _ ↦ rfl
    starting := fun _ _ ↦ rfl
    alive := fun _ ↦ rfl
    published := fun hpublished ↦ absurd hpublished hnot }

end

/-- An open record has no recorded close. -/
theorem Conn.reason_of_closeState (hclose : conn.closeState = none) : conn.reason = none := by
  unfold Conn.closeState at hclose
  exact (Option.or_eq_none_iff.mp hclose).1

section

variable (hsafe : Safe caps endpoint)
include hsafe

theorem Safe.accept (id : ℕ) (welcome : Welcome) :
    Safe caps (endpoint.unlessRefused (endpoint.state.accept id welcome)) := by
  unfold State.accept
  cases hvisible : endpoint.state.visible id with
  | error fault => exact hsafe
  | ok conn =>
    simp only
    cases hclose : conn.closeState with
    | some reason => exact hsafe
    | none =>
      simp only
      split_ifs with hphase hopening hwelcome
      · exact hsafe
      · exact hsafe
      · exact hsafe
      · exact hsafe.accepted (State.visible_eq_ok_iff.mp hvisible).1 (not_not.mp hphase)
          (Conn.reason_of_closeState hclose) _

theorem Safe.acceptResume (id : ℕ) (answer : List UInt8) :
    Safe caps (endpoint.unlessRefused (endpoint.state.acceptResume id answer)) := by
  unfold State.acceptResume
  cases hvisible : endpoint.state.visible id with
  | error fault => exact hsafe
  | ok conn =>
    simp only
    cases hclose : conn.closeState with
    | some reason => exact hsafe
    | none =>
      simp only
      split_ifs with hphase hopening
      · exact hsafe
      · exact hsafe
      · exact hsafe.accepted (State.visible_eq_ok_iff.mp hvisible).1 (not_not.mp hphase)
          (Conn.reason_of_closeState hclose) _

theorem Safe.recordClose_state (reason : CloseReason)
    (hreading : (endpoint.tasks id).stage ≠ .reading) :
    ∃ recorded, endpoint.state.recordClose id reason = some recorded ∧
      Safe caps (endpoint.withState recorded.2) := by
  obtain ⟨state, hrecorded, hsafeNext⟩ := hsafe.recordClose reason hreading
  obtain ⟨recorded, hrecord, heq⟩ := Option.map_eq_some_iff.mp hrecorded
  exact ⟨recorded, hrecord, heq ▸ hsafeNext⟩

/-- A close at once keeps `Safe`. -/
theorem Safe.closeNow (hget : endpoint.state.conns.get? id = some conn)
    (hphase : conn.phase ≠ .hello) (code : CloseCode) :
    ∃ state, endpoint.state.closeNow id conn code = some state ∧
      Safe caps (endpoint.withState state) := by
  have hlife := ((hsafe.invariant.lanes id).present conn hget).life
  have hrequested : Safe caps (endpoint.withState
      (endpoint.state.setConn id { conn with quinnClose := some code })) :=
    hsafe.setConn hget ⟨rfl, rfl, rfl, rfl, rfl⟩ { hlife with }
  have hreading : (endpoint.tasks id).stage ≠ .reading :=
    fun hstage ↦ hphase (hlife.hello_iff.mpr hstage)
  obtain ⟨recorded, hrecord, hnext⟩ := hrequested.recordClose_state (.localClose code) hreading
  refine ⟨recorded.2, ?_, hnext⟩
  unfold State.closeNow
  rw [show (endpoint.state.setConn id { conn with quinnClose := some code }).recordClose id
    (.localClose code) = some recorded from hrecord]
  rfl

theorem Safe.refuse (id : ℕ) (code : CloseCode) :
    ∃ next, (endpoint.state.refuse id code).map endpoint.unlessRefused = some next ∧
    Safe caps next := by
  unfold State.refuse
  cases hvisible : endpoint.state.visible id with
  | error fault => exact ⟨_, rfl, hsafe⟩
  | ok conn =>
    simp only
    obtain ⟨hget, hphase, -⟩ := State.visible_eq_ok_iff.mp hvisible
    cases conn.closeState with
    | some reason => exact ⟨_, rfl, hsafe⟩
    | none =>
      simp only
      split_ifs with hpending
      · exact ⟨_, rfl, hsafe⟩
      · obtain ⟨state, hclosed, hnext⟩ := hsafe.closeNow hget hphase code
        rw [hclosed]
        exact ⟨_, rfl, hnext⟩

theorem Safe.close (id : ℕ) (code : CloseCode) (mode : CloseMode) :
    ∃ next, (endpoint.state.close id code mode).map endpoint.unlessRefused = some next ∧
      Safe caps next := by
  unfold State.close
  cases hvisible : endpoint.state.visible id with
  | error fault => exact ⟨_, rfl, hsafe⟩
  | ok conn =>
    simp only
    obtain ⟨hget, hphase, -⟩ := State.visible_eq_ok_iff.mp hvisible
    cases conn.closeState with
    | some reason => exact ⟨_, rfl, hsafe⟩
    | none =>
      simp only
      split_ifs with hnow
      · obtain ⟨state, hclosed, hnext⟩ := hsafe.closeNow hget hphase code
        rw [hclosed]
        exact ⟨_, rfl, hnext⟩
      · have hlife := ((hsafe.invariant.lanes id).present conn hget).life
        exact ⟨_, rfl, hsafe.setConn hget ⟨rfl, rfl, rfl, rfl, rfl⟩ { hlife with }⟩

theorem Safe.send (id : ℕ) (channel : Channel) (frame : List UInt8) :
    Safe caps (endpoint.unlessRefused (endpoint.state.trySendChannel id channel frame)) := by
  unfold State.trySendChannel
  cases hvisible : endpoint.state.visible id with
  | error fault => exact hsafe
  | ok conn =>
    simp only
    obtain ⟨hget, -, -⟩ := State.visible_eq_ok_iff.mp hvisible
    by_cases hphase : conn.phase ≠ .accepted
    · rw [if_pos hphase]
      exact hsafe
    · rw [if_neg hphase]
      cases hclose : conn.closeState with
      | some reason => exact hsafe
      | none =>
        simp only
        split_ifs
        · exact hsafe
        · exact hsafe
        · exact hsafe
        · cases hqueued : endpoint.state.queueOutbound id channel frame with
          | error fault => exact hsafe
          | ok queued =>
            apply hsafe.queueOutbound hqueued
            intro found hfound
            rw [hget, Option.some.injEq] at hfound
            rw [← hfound]
            exact ⟨not_not.mp hphase, Conn.reason_of_closeState hclose⟩

end

/-! ### The serving task -/

/-- The positions of the serving task after its opening. -/
def Stage.settled : Stage → Bool
  | abandoned => true
  | control => true
  | flushing _ => true
  | leaving => true
  | finished => true
  | _ => false

section

variable (hsafe : Safe caps endpoint)
include hsafe

theorem Safe.setStage {stage : Stage} (hassigned : (endpoint.tasks id).stage ≠ .unassigned)
    (hreading : (endpoint.tasks id).stage ≠ .reading) (hsettled : stage.settled = true)
    (hearly : stage.early = true → (endpoint.tasks id).stage.early = true) :
    Safe caps (endpoint.setStage id stage) := by
  have hnotUnassigned : stage ≠ .unassigned := by
    rintro rfl
    exact absurd hsettled (by decide)
  have hnotReading : stage ≠ .reading := by
    rintro rfl
    exact absurd hsettled (by decide)
  have hnotDeciding : stage ≠ .deciding := by
    rintro rfl
    exact absurd hsettled (by decide)
  have hnotStarting : ∀ answer, stage ≠ .starting answer := by
    rintro answer rfl
    exact absurd hsettled Bool.false_ne_true
  apply hsafe.setTasks hassigned hnotUnassigned
  · intro conn _ hlife
    exact hlife.setStage hreading hnotUnassigned hnotReading hnotDeciding hnotStarting
      fun hstage ↦ hlife.early (hearly hstage)
  · exact fun _ _ hreader ↦ ⟨hnotReading, hnotStarting, hreader⟩

theorem Safe.exists_hello (hreading : (endpoint.tasks id).stage = .reading) :
    ∃ conn, endpoint.state.conns.get? id = some conn ∧ conn.phase = .hello := by
  have hlane := hsafe.invariant.lanes id
  cases hget : endpoint.state.conns.get? id with
  | none =>
    cases hlane.absent hget with
    | unassigned htasks =>
      rw [htasks] at hreading
      exact absurd hreading (by decide)
    | forgotten _ hnot => exact absurd hreading hnot
  | some conn => exact ⟨conn, rfl, (hlane.present conn hget).life.hello_iff.mpr hreading⟩

/-- An opening fails: the record goes and the slot is given back. -/
theorem Safe.openingFailed (hreading : (endpoint.tasks id).stage = .reading) :
    Safe caps (((endpoint.withState (endpoint.state.endHandshake (some id))).setStage id
      .finished).setHistory id
        { endpoint.history id with failed := (endpoint.history id).failed + 1 }) := by
  obtain ⟨conn, hget, hphase⟩ := hsafe.exists_hello hreading
  have hinv := hsafe.invariant
  obtain ⟨-, hordered, hlife⟩ := (hinv.lanes id).present conn hget
  have haccepted : conn.phase ≠ .accepted := by
    rw [hphase]
    decide
  obtain ⟨hinbound, hparked, houtbound, -⟩ := hlife.unaccepted haccepted
  have hpublished : conn.published = false := by
    by_contra hpublished
    exact hlife.not_reading (Bool.not_eq_false _ ▸ hpublished) hreading
  have hnotices := hlife.notices_eq
  rw [hpublished, if_neg Bool.false_ne_true] at hnotices
  let after := ((endpoint.withState (endpoint.state.endHandshake (some id))).setStage id
    .finished).setHistory id
      { endpoint.history id with failed := (endpoint.history id).failed + 1 }
  have htasks : after.tasks id = { endpoint.tasks id with stage := .finished } :=
    Function.update_self ..
  have hhistory : after.history id =
      { endpoint.history id with failed := (endpoint.history id).failed + 1 } :=
    Function.update_self ..
  have hreturned : (after.history id).polled + (after.history id).failed = 1 := by
    rw [hhistory]
    show (endpoint.history id).polled + ((endpoint.history id).failed + 1) = 1
    rw [hlife.failed]
    omega
  constructor
  · refine hinv.drop hget hinbound houtbound rfl ⟨fun other hne ↦ Function.update_of_ne hne ..,
      fun other hne ↦ Function.update_of_ne hne .., fun _ _ ↦ rfl, rfl, rfl, rfl, rfl⟩ ?_ ?_ ?_
    · rw [htasks]
      exact nofun
    · refine .forgotten ?_ ?_ ?_ ?_ ?_ ?_ hreturned
      · rw [htasks]
        exact nofun
      · rw [htasks]
        exact nofun
      · rw [htasks]
        exact nofun
      · rw [htasks]
        show (endpoint.tasks id).reader.alive = false
        rw [(hlife.early (by rw [hreading]; rfl)).1]
        rfl
      · rw [hhistory]
        show (endpoint.history id).offered = (endpoint.history id).received
        rw [hordered, Conn.held, hinbound, hparked]
        exact List.append_nil _
      · show closedNotices id endpoint.state.events = 0
        omega
    · have hid : ¬(endpoint.state.nextId ≤ id ∨ id = 0) :=
        mt (hinv.lanes id).unassigned_iff.mpr hlife.assigned
      have hcard : (holders after).card + 1 = (holders endpoint).card := by
        refine holders_returned rfl (fun other hne ↦ Function.update_of_ne hne ..) ?_ ?_ ?_
          hreturned
        · omega
        · omega
        · rw [hlife.failed]
          omega
      have hlive := hinv.live
      show endpoint.state.live - 1 = endpoint.handshakes + (holders after).card
      omega
  · exact hsafe.tight.drop rfl rfl rfl rfl

/-- An opening is read and its notice queued. Assumes: the update makes the record pending and
leaves its queues and flags. -/
theorem Safe.opened {update : Conn → Conn} {notice : ServerNotice}
    (hreading : (endpoint.tasks id).stage = .reading)
    (hupdate : ∀ conn, ∃ opening version, update conn =
      { conn with phase := .pending, opening := opening, helloVersion := version })
    (hnotice : ∀ other, closedNotices other [notice] = 0) :
    Safe caps (endpoint.opened id update notice) := by
  obtain ⟨conn, hget, hphase⟩ := hsafe.exists_hello hreading
  have hlife := ((hsafe.invariant.lanes id).present conn hget).life
  obtain ⟨opening, version, heq⟩ := hupdate conn
  have haccepted : conn.phase ≠ .accepted := by
    rw [hphase]
    decide
  have hpending : Phase.pending ≠ .hello := by decide
  have hearly := hlife.early (by rw [hreading]; rfl)
  have hnext : Life (update conn) { endpoint.tasks id with stage := .deciding }
      (endpoint.history id) (closedNotices id endpoint.state.events) := by
    rw [heq]
    exact { hlife with
      assigned := nofun
      hello_iff := iff_of_false hpending nofun
      unaccepted := fun _ ↦ hlife.unaccepted haccepted
      unanswered := fun _ ↦ hlife.unanswered haccepted
      hello_open := fun hhello ↦ absurd hhello hpending
      early := fun _ ↦ hearly
      answer := fun _ hsome ↦ by
        rw [show ({ conn with phase := .pending, opening := opening, helloVersion := version } :
          Conn).answer = conn.answer from rfl, hlife.unanswered haccepted] at hsome
        exact absurd hsome Bool.false_ne_true
      starting := fun _ hstage ↦ nomatch hstage }
  have hsame : SameQueues conn (update conn) := by
    rw [heq]
    exact ⟨rfl, rfl, rfl, rfl, rfl⟩
  have hquiet := hsafe.quiet hget hsame hnext
  have hkept : ∀ other, closedNotices other (endpoint.state.events ++ [notice]) =
      closedNotices other endpoint.state.events := by
    intro other
    rw [closedNotices_append, hnotice other, Nat.add_zero]
  simp only [Endpoint.opened, hget]
  exact hquiet.setEvents hkept

/-- `await_decision` looks at the record. -/
theorem Safe.decide (hdeciding : (endpoint.tasks id).stage = .deciding) :
    Safe caps (endpoint.decide id) := by
  have hassigned : (endpoint.tasks id).stage ≠ .unassigned := by
    rw [hdeciding]
    exact nofun
  have hreading : (endpoint.tasks id).stage ≠ .reading := by
    rw [hdeciding]
    exact nofun
  have habandoned : Safe caps (endpoint.setStage id .abandoned) :=
    hsafe.setStage hassigned hreading rfl fun _ ↦ by rw [hdeciding]; rfl
  unfold Endpoint.decide
  cases hget : endpoint.state.conns.get? id with
  | none => exact habandoned
  | some conn =>
    simp only
    split_ifs with hclosed
    · exact habandoned
    · have hlife := ((hsafe.invariant.lanes id).present conn hget).life
      cases hanswer : conn.answer with
      | none => exact hsafe
      | some answer =>
        have hactive := hlife.answer hdeciding (by rw [hanswer]; rfl)
        have hearly := hlife.early (by rw [hdeciding]; rfl)
        refine hsafe.quiet hget ⟨rfl, rfl, rfl, rfl, rfl⟩ ?_
        exact { hlife with
          assigned := nofun
          hello_iff := iff_of_false (fun hhello ↦ hreading (hlife.hello_iff.mp hhello)) nofun
          unanswered := fun _ ↦ rfl
          early := fun _ ↦ hearly
          answer := fun hstage ↦ nomatch hstage
          starting := fun _ _ ↦ hactive }

theorem Safe.started {answer : Answer} (hstage : (endpoint.tasks id).stage = .starting answer) :
    Safe caps (endpoint.setTasks id ⟨.control, .running, .running⟩) := by
  have hassigned : (endpoint.tasks id).stage ≠ .unassigned := by
    rw [hstage]
    exact nofun
  have hnext : (⟨.control, .running, .running⟩ : Tasks).stage ≠ .unassigned := nofun
  apply hsafe.setTasks hassigned hnext
  · intro conn _ hlife
    have hactive := hlife.starting answer hstage
    have hearly := hlife.early (by rw [hstage]; rfl)
    refine hlife.setTasks nofun (iff_of_false nofun ?_)
      (fun hbefore ↦ absurd hbefore Bool.false_ne_true) (fun hdeciding ↦ nomatch hdeciding)
      (fun _ hstarting ↦ nomatch hstarting) (fun _ ↦ hactive) fun hparked ↦ ?_
    · rw [hstage]
      exact nofun
    · have hwaiting := hlife.parked hparked
      rw [hearly.1] at hwaiting
      exact absurd hwaiting (by decide)
  · exact fun _ hstarting _ ↦ absurd hstage (hstarting answer)

/-- The top of the loop of `lane_control`. -/
theorem Safe.control (hcontrol : (endpoint.tasks id).stage = .control) :
    Safe caps (endpoint.control id) := by
  have hreading : (endpoint.tasks id).stage ≠ .reading := by
    rw [hcontrol]
    exact nofun
  cases hget : endpoint.state.conns.get? id with
  | none =>
    simp only [Endpoint.control, hget]
    exact hsafe
  | some conn =>
    have hlife := ((hsafe.invariant.lanes id).present conn hget).life
    simp only [Endpoint.control, hget]
    split_ifs with hclose hreleased
    · obtain ⟨hpublished, hpolled, hinbound⟩ := hlife.released hreleased
      exact hsafe.forget hget hpublished hpolled hinbound
    · exact hsafe.setConn hget ⟨rfl, rfl, rfl, rfl, rfl⟩ { hlife with }
    · split
      · next code _ =>
        have hnext : Life conn { endpoint.tasks id with stage := .flushing code }
            (endpoint.history id) (closedNotices id endpoint.state.events) :=
          hlife.setStage hreading nofun nofun nofun nofun
            fun hearly ↦ absurd hearly Bool.false_ne_true
        exact hsafe.quiet hget ⟨rfl, rfl, rfl, rfl, rfl⟩ { hnext with }
      · exact hsafe

/-- The end of `lane_control`. -/
theorem Safe.leave (hleaving : (endpoint.tasks id).stage = .leaving) :
    Safe caps (endpoint.leave id) := by
  have hassigned : (endpoint.tasks id).stage ≠ .unassigned := by
    rw [hleaving]
    exact nofun
  have hreading : (endpoint.tasks id).stage ≠ .reading := by
    rw [hleaving]
    exact nofun
  cases hget : endpoint.state.conns.get? id with
  | none =>
    simp only [Endpoint.leave, hget]
    exact hsafe.setStage hassigned hreading rfl fun hearly ↦ absurd hearly Bool.false_ne_true
  | some conn =>
    have hlife := ((hsafe.invariant.lanes id).present conn hget).life
    simp only [Endpoint.leave, hget]
    split_ifs with hreleased
    · obtain ⟨hpublished, hpolled, hinbound⟩ := hlife.released hreleased
      have hforgotten := hsafe.forget hget hpublished hpolled hinbound
      exact hforgotten.setStage hassigned hreading rfl fun hearly ↦ absurd hearly Bool.false_ne_true
    · have hnext : Life conn { endpoint.tasks id with stage := .finished } (endpoint.history id)
          (closedNotices id endpoint.state.events) :=
        hlife.setStage hreading nofun nofun nofun nofun
          fun hearly ↦ absurd hearly Bool.false_ne_true
      exact hsafe.quiet hget ⟨rfl, rfl, rfl, rfl, rfl⟩ { hnext with }

/-- The end of `run_flush`. -/
theorem Safe.flushed {code : CloseCode} (hflushing : (endpoint.tasks id).stage = .flushing code) :
    ∃ next, endpoint.flushed id = some next ∧ Safe caps next := by
  have hassigned : (endpoint.tasks id).stage ≠ .unassigned := by
    rw [hflushing]
    intro h
    cases h
  have hreading : (endpoint.tasks id).stage ≠ .reading := by
    rw [hflushing]
    intro h
    cases h
  obtain ⟨state, hrecord, hrecorded⟩ := hsafe.recordClose (.localClose code) hreading
  simp only [Endpoint.flushed, hflushing, hrecord, Option.map_some]
  refine ⟨_, rfl, Safe.setStage ?_ hassigned hreading rfl
    fun hearly ↦ absurd hearly Bool.false_ne_true⟩
  -- The record is marked closed, where it is still there.
  split
  · exact hrecorded
  · next conn hget =>
    have hlife := ((hrecorded.invariant.lanes id).present conn hget).life
    exact hrecorded.setConn hget ⟨rfl, rfl, rfl, rfl, rfl⟩ { hlife with }

theorem Safe.recordThenStage {stage : Stage} (reason : CloseReason)
    (hassigned : (endpoint.tasks id).stage ≠ .unassigned)
    (hreading : (endpoint.tasks id).stage ≠ .reading) (hsettled : stage.settled = true)
    (hearly : stage.early = true → (endpoint.tasks id).stage.early = true) :
    ∃ next, ((endpoint.recordClose id reason).map fun recorded ↦ recorded.setStage id stage) =
      some next ∧ Safe caps next := by
  obtain ⟨state, hrecord, hrecorded⟩ := hsafe.recordClose reason hreading
  rw [hrecord]
  exact ⟨_, rfl, hrecorded.setStage hassigned hreading hsettled hearly⟩

/-- The undecided connection runs out of time. -/
theorem Safe.decisionTimeout (hdeciding : (endpoint.tasks id).stage = .deciding) :
    ∃ next, (if (endpoint.state.conns.get? id).any (·.phase = .pending) then
        endpoint.recordClose id (.localClose .authTimeout) else some endpoint) = some next ∧
      Safe caps next := by
  split_ifs
  · obtain ⟨state, hrecord, hrecorded⟩ := hsafe.recordClose (.localClose .authTimeout)
      (by rw [hdeciding]; exact nofun)
    exact ⟨_, hrecord, hrecorded⟩
  · exact ⟨_, rfl, hsafe⟩

/-- The serving task gives up an undecided connection. -/
theorem Safe.abandon (habandoned : (endpoint.tasks id).stage = .abandoned) :
    Safe caps ((endpoint.withState (endpoint.state.readerFinished id)).setStage id .control) := by
  have hassigned : (endpoint.tasks id).stage ≠ .unassigned := by
    rw [habandoned]
    exact nofun
  have hreading : (endpoint.tasks id).stage ≠ .reading := by
    rw [habandoned]
    exact nofun
  have hreader : (endpoint.tasks id).reader.alive = false := by
    have hlane := hsafe.invariant.lanes id
    cases hget : endpoint.state.conns.get? id with
    | none =>
      cases hlane.absent hget with
      | unassigned htasks =>
        rw [htasks]
        rfl
      | forgotten _ _ _ hreader => exact hreader
    | some conn =>
      rw [((hlane.present conn hget).life.early (by rw [habandoned]; rfl)).1]
      rfl
  have hgone := hsafe.readerFinished hreader (by rw [habandoned]; exact nofun)
    (by rw [habandoned]; exact nofun)
  exact hgone.setStage hassigned hreading rfl fun hearly ↦ absurd hearly Bool.false_ne_true

/-! ### The lane's reader and writer -/

theorem Safe.setReader {reader : Reader} (halive : (endpoint.tasks id).reader.alive = true)
    (hparked : ∀ conn, endpoint.state.conns.get? id = some conn → conn.parked.isSome = true →
      reader = .waiting) : Safe caps (endpoint.setReader id reader) := by
  obtain ⟨conn, hget⟩ := hsafe.exists_conn halive
  have hassigned := ((hsafe.invariant.lanes id).present conn hget).life.assigned
  have hnext : ({ endpoint.tasks id with reader := reader } : Tasks).stage ≠ .unassigned :=
    hassigned
  apply hsafe.setTasks hassigned hnext
  · exact fun found hfound hlife ↦ hlife.setReader halive (hparked found hfound)
  · exact fun _ _ hidle ↦ absurd (hidle.symm.trans halive) Bool.false_ne_true

theorem Safe.setWriter {writer : Writer} (hrunning : (endpoint.tasks id).writer ≠ .idle) :
    Safe caps (endpoint.setWriter id writer) := by
  have hassigned : (endpoint.tasks id).stage ≠ .unassigned := by
    intro hstage
    have hlane := hsafe.invariant.lanes id
    cases hget : endpoint.state.conns.get? id with
    | none =>
      cases hlane.absent hget with
      | unassigned htasks =>
        rw [htasks] at hrunning
        exact hrunning rfl
      | forgotten hassigned => exact hassigned hstage
    | some conn => exact (hlane.present conn hget).life.assigned hstage
  have hnext : ({ endpoint.tasks id with writer := writer } : Tasks).stage ≠ .unassigned :=
    hassigned
  apply hsafe.setTasks hassigned hnext
  · exact fun _ _ hlife ↦ hlife.setWriter hrunning
  · exact fun hreading hstarting hreader ↦ ⟨hreading, hstarting, hreader⟩

/-- A reader runs only once its lane is started. -/
theorem Safe.not_early (halive : (endpoint.tasks id).reader.alive = true) :
    (endpoint.tasks id).stage.early = false := by
  obtain ⟨conn, hget⟩ := hsafe.exists_conn halive
  by_contra hearly
  rw [Bool.not_eq_false] at hearly
  rw [(((hsafe.invariant.lanes id).present conn hget).life.early hearly).1] at halive
  exact absurd halive Bool.false_ne_true

theorem Safe.not_reading (hwriter : (endpoint.tasks id).writer ≠ .idle) :
    (endpoint.tasks id).stage ≠ .reading := by
  intro hreading
  obtain ⟨conn, hget, -⟩ := hsafe.exists_hello hreading
  have hlife := ((hsafe.invariant.lanes id).present conn hget).life
  exact hwriter (hlife.early (by rw [hreading]; rfl)).2

theorem Safe.wake (hwaiting : (endpoint.tasks id).reader = .waiting) :
    Safe caps (endpoint.wake id) := by
  have halive : (endpoint.tasks id).reader.alive = true := by
    rw [hwaiting]
    rfl
  obtain ⟨conn, hget⟩ := hsafe.exists_conn halive
  simp only [Endpoint.wake, hget]
  split_ifs with hparked
  · apply hsafe.setReader halive
    intro found hfound hsome
    rw [hget, Option.some.injEq] at hfound
    rw [← hfound, ← Option.not_isNone, hparked] at hsome
    exact absurd hsome Bool.false_ne_true
  · exact hsafe

/-- A running reader holds no frame back. -/
theorem Safe.not_parked {reader : Reader} (hwaiting : (endpoint.tasks id).reader ≠ .waiting) :
    ∀ conn, endpoint.state.conns.get? id = some conn → conn.parked.isSome = true →
      reader = .waiting := by
  intro conn hget hparked
  exact absurd (((hsafe.invariant.lanes id).present conn hget).life.parked hparked) hwaiting

theorem Safe.readerClose (code : CloseCode) (hreader : (endpoint.tasks id).reader = .running) :
    ∃ next, ((endpoint.recordClose id (.localClose code)).map fun recorded ↦
      recorded.setReader id .ending) = some next ∧ Safe caps next := by
  have halive : (endpoint.tasks id).reader.alive = true := by
    rw [hreader]
    rfl
  have hreading : (endpoint.tasks id).stage ≠ .reading := by
    intro hreading
    have hearly := hsafe.not_early halive
    rw [hreading] at hearly
    exact absurd hearly (by decide)
  have hwaiting : (endpoint.tasks id).reader ≠ .waiting := by
    rw [hreader]
    exact nofun
  obtain ⟨state, hrecord, hrecorded⟩ := hsafe.recordClose (.localClose code) hreading
  rw [hrecord]
  exact ⟨_, rfl, hrecorded.setReader halive (hrecorded.not_parked hwaiting)⟩

theorem Safe.readerEnded (hreader : (endpoint.tasks id).reader = .ending) :
    Safe caps ((endpoint.withState (endpoint.state.readerFinished id)).setReader id .ended) := by
  have halive : (endpoint.tasks id).reader.alive = true := by
    rw [hreader]
    rfl
  have hwaiting : (endpoint.tasks id).reader ≠ .waiting := by
    rw [hreader]
    exact nofun
  have hearly := hsafe.not_early halive
  have hended : Safe caps (endpoint.setReader id .ended) :=
    hsafe.setReader halive (hsafe.not_parked hwaiting)
  have htasks : (endpoint.setReader id .ended).tasks id =
      { endpoint.tasks id with reader := .ended } := Function.update_self ..
  apply hended.readerFinished
  · rw [htasks]
    rfl
  · rw [htasks]
    intro hdeciding
    rw [show (endpoint.tasks id).stage = .deciding from hdeciding] at hearly
    exact absurd hearly (by decide)
  · rw [htasks]
    intro answer hstarting
    rw [show (endpoint.tasks id).stage = .starting answer from hstarting] at hearly
    exact absurd hearly.symm Bool.false_ne_true

/-- The writer takes a frame, ends, or waits. -/
theorem Safe.write (hwriter : (endpoint.tasks id).writer ≠ .idle) :
    ∃ next, endpoint.write id = some next ∧ Safe caps next := by
  unfold Endpoint.write
  cases hget : endpoint.state.conns.get? id with
  | none => exact ⟨_, rfl, hsafe.setWriter hwriter⟩
  | some conn =>
    simp only
    by_cases hclosed : conn.reason.isSome = true
    · rw [if_pos hclosed]
      exact ⟨_, rfl, hsafe.setWriter hwriter⟩
    · rw [if_neg hclosed]
      cases houtbound : conn.outbound with
      | nil =>
        rw [State.popOutbound_nil hget houtbound, Option.map_some]
        refine ⟨_, rfl, ?_⟩
        simp only
        split_ifs
        · exact hsafe.setWriter hwriter
        · exact hsafe
      | cons frame rest =>
        obtain ⟨hpop, hsent⟩ := hsafe.popOutbound hget houtbound
        rw [hpop]
        exact ⟨_, rfl, hsent⟩

theorem Safe.writerClose (hwriter : (endpoint.tasks id).writer ≠ .idle) :
    ∃ next, ((endpoint.recordClose id (.localClose .protocolViolation)).map fun recorded ↦
      recorded.setWriter id .ending) = some next ∧ Safe caps next := by
  obtain ⟨state, hrecord, hrecorded⟩ :=
    hsafe.recordClose (.localClose .protocolViolation) (hsafe.not_reading hwriter)
  rw [hrecord]
  exact ⟨_, rfl, hrecorded.setWriter hwriter⟩

theorem Safe.writerEnded (hwriter : (endpoint.tasks id).writer ≠ .idle) :
    Safe caps ((endpoint.withState (match endpoint.state.conns.get? id with
      | none => endpoint.state
      | some conn => endpoint.state.setConn id { conn with writerFinished := true })).setWriter id
        .ended) := by
  have hmarked : Safe caps (endpoint.withState (match endpoint.state.conns.get? id with
      | none => endpoint.state
      | some conn => endpoint.state.setConn id { conn with writerFinished := true })) := by
    cases hget : endpoint.state.conns.get? id with
    | none => exact hsafe
    | some conn =>
      have hlife := ((hsafe.invariant.lanes id).present conn hget).life
      exact hsafe.setConn hget ⟨rfl, rfl, rfl, rfl, rfl⟩ { hlife with }
  exact hmarked.setWriter hwriter

/-! ### The handshakes -/

/-- The counters beside the connections change. -/
theorem Safe.counters {live refusedHandshakes refusedAtLimit handshakes : ℕ} {stopping : Bool}
    (hlive : live = handshakes + (holders endpoint).card) : Safe caps { endpoint with
      state := { endpoint.state with
        live := live, refusedHandshakes := refusedHandshakes, refusedAtLimit := refusedAtLimit,
        stopping := stopping }
      handshakes := handshakes } := by
  obtain ⟨hinv, htight⟩ := hsafe
  refine ⟨⟨hinv.caps_eq, hinv.emits, hinv.next_pos, fun id ↦ ?_, ?_, hlive⟩, htight⟩
  · obtain ⟨hpresent, habsent, hunassigned⟩ := hinv.lanes id
    refine ⟨fun conn hget ↦ ?_, habsent, hunassigned⟩
    obtain ⟨hqueues, hordered, hlife⟩ := hpresent conn hget
    exact ⟨hqueues, hordered, hlife⟩
  · obtain ⟨hinFrames, hinBytes, houtFrames, houtBytes, hinFramesLe, hinBytesLe, houtFramesLe,
      houtBytesLe⟩ := hinv.totals
    exact ⟨hinFrames, hinBytes, houtFrames, houtBytes, hinFramesLe, hinBytesLe, houtFramesLe,
      houtBytesLe⟩

theorem Safe.admitIncoming (maxConnections : ℕ) :
    Safe caps { endpoint.withState (endpoint.state.admitIncoming maxConnections).2 with
      handshakes := if (endpoint.state.admitIncoming maxConnections).1 then endpoint.handshakes + 1
        else endpoint.handshakes } := by
  have hlive := hsafe.invariant.live
  unfold State.admitIncoming
  by_cases hstopping : endpoint.state.stopping = true
  · rw [if_pos hstopping]
    exact hsafe
  · rw [if_neg hstopping]
    by_cases hfull : maxConnections ≤ endpoint.state.live
    · rw [if_pos hfull]
      exact hsafe.counters hlive
    · rw [if_neg hfull]
      have hnext : endpoint.state.live + 1 = endpoint.handshakes + 1 + (holders endpoint).card := by
        omega
      exact hsafe.counters hnext

theorem Safe.handshakeFailed (hhandshakes : 0 < endpoint.handshakes) :
    Safe caps { endpoint.withState (endpoint.state.endHandshake none) with
      handshakes := endpoint.handshakes - 1 } := by
  have hlive := hsafe.invariant.live
  refine hsafe.counters ?_
  omega

/-! ### Steps -/

/-- Every allowed action returns and keeps `Safe`. -/
theorem Safe.step (maxConnections : ℕ) {action : Action} (hallowed : endpoint.Allowed action) :
    ∃ next, endpoint.step maxConnections action = some next ∧ Safe caps next := by
  cases action with
  | pollEvent => exact ⟨_, rfl, hsafe.pollEvent⟩
  | pollNotice => exact ⟨_, rfl, hsafe.pollNotice⟩
  | accept id welcome => exact ⟨_, rfl, hsafe.accept id welcome⟩
  | acceptResume id answer => exact ⟨_, rfl, hsafe.acceptResume id answer⟩
  | refuse id code => exact hsafe.refuse id code
  | recv id lane0Only => exact hsafe.recv id lane0Only
  | send id channel frame => exact ⟨_, rfl, hsafe.send id channel frame⟩
  | close id code mode => exact hsafe.close id code mode
  | stop => exact ⟨_, rfl, hsafe.counters hsafe.invariant.live⟩
  | incoming => exact ⟨_, rfl, hsafe.admitIncoming maxConnections⟩
  | handshakeFailed => exact ⟨_, rfl, hsafe.handshakeFailed hallowed⟩
  | connected framing => exact ⟨_, rfl, hsafe.connected framing hallowed⟩
  | openingFailed id => exact ⟨_, rfl, hsafe.openingFailed hallowed⟩
  | helloRead id hello =>
    exact ⟨_, rfl, hsafe.opened hallowed (fun _ ↦ ⟨_, _, rfl⟩) fun _ ↦ rfl⟩
  | resumeRead id request =>
    exact ⟨_, rfl, hsafe.opened hallowed (fun conn ↦ ⟨_, conn.helloVersion, rfl⟩) fun _ ↦ rfl⟩
  | decide id => exact ⟨_, rfl, hsafe.decide hallowed⟩
  | decisionTimeout id => exact hsafe.decisionTimeout hallowed
  | decisionLost id reason =>
    rw [Endpoint.Allowed] at hallowed
    exact hsafe.recordThenStage reason (by rw [hallowed]; exact nofun)
      (by rw [hallowed]; exact nofun) rfl fun _ ↦ by rw [hallowed]; rfl
  | abandon id => exact ⟨_, rfl, hsafe.abandon hallowed⟩
  | started id =>
    obtain ⟨answer, hstage⟩ := hallowed
    exact ⟨_, rfl, hsafe.started hstage⟩
  | startFailed id reason =>
    obtain ⟨answer, hstage⟩ := hallowed
    exact hsafe.recordThenStage reason (by rw [hstage]; exact nofun)
      (by rw [hstage]; exact nofun) rfl fun _ ↦ by rw [hstage]; rfl
  | control id => exact ⟨_, rfl, hsafe.control hallowed⟩
  | flushed id =>
    obtain ⟨code, hstage⟩ := hallowed
    exact hsafe.flushed hstage
  | lost id reason =>
    rw [Endpoint.Allowed] at hallowed
    exact hsafe.recordThenStage reason (by rw [hallowed]; exact nofun)
      (by rw [hallowed]; exact nofun) rfl fun hearly ↦ absurd hearly Bool.false_ne_true
  | leave id => exact ⟨_, rfl, hsafe.leave hallowed⟩
  | offer id frame => exact ⟨_, rfl, hsafe.offer frame hallowed⟩
  | wake id => exact ⟨_, rfl, hsafe.wake hallowed⟩
  | readerClose id code => exact hsafe.readerClose code hallowed
  | readerStop id =>
    rw [Endpoint.Allowed] at hallowed
    exact ⟨_, rfl, hsafe.setReader (by rw [hallowed]; rfl)
      (hsafe.not_parked (by rw [hallowed]; exact nofun))⟩
  | readerFinished id => exact ⟨_, rfl, hsafe.readerEnded hallowed⟩
  | write id =>
    rw [Endpoint.Allowed] at hallowed
    exact hsafe.write (by rw [hallowed]; exact nofun)
  | writerClose id =>
    rw [Endpoint.Allowed] at hallowed
    exact hsafe.writerClose (by rw [hallowed]; exact nofun)
  | writerStop id =>
    rw [Endpoint.Allowed] at hallowed
    exact ⟨_, rfl, hsafe.setWriter (by rw [hallowed]; exact nofun)⟩
  | writerFinished id =>
    rw [Endpoint.Allowed] at hallowed
    exact ⟨_, rfl, hsafe.writerEnded (by rw [hallowed]; exact nofun)⟩

end

/-- A server at its start. -/
theorem Safe.new (inboundCaps outboundCaps : QueueCaps) :
    Safe (inboundCaps, outboundCaps) (Endpoint.new inboundCaps outboundCaps) := by
  constructor
  · refine ⟨rfl, rfl, Nat.one_pos, fun id ↦ ?_, ?_, rfl⟩
    · refine ⟨fun conn hget ↦ (nomatch hget), fun _ ↦ .unassigned rfl rfl rfl, ?_⟩
      exact iff_of_true rfl (Nat.eq_zero_or_pos id).symm
    · exact ⟨rfl, rfl, rfl, rfl, Nat.zero_le _, Nat.zero_le _, Nat.zero_le _, Nat.zero_le _⟩
  · exact fun id conn hget ↦ nomatch hget

/-! ### Runs -/

structure Promised (maxConnections : ℕ) (inboundCaps outboundCaps : QueueCaps)
    (endpoint : Endpoint) : Prop where
  -- The totals are the sums over the stored connections, within the caps.
  inboundCaps_eq : endpoint.state.inboundCaps = inboundCaps
  outboundCaps_eq : endpoint.state.outboundCaps = outboundCaps
  totals : Totals endpoint.state
  queues : ∀ id conn, endpoint.state.conns.get? id = some conn →
    Queues inboundCaps outboundCaps conn
  returns : ∀ action, endpoint.Allowed action →
    (endpoint.step maxConnections action).isSome = true
  -- The frames of a connection arrive in the order offered.
  stored : ∀ id conn, endpoint.state.conns.get? id = some conn →
    (endpoint.history id).offered =
      (endpoint.history id).received ++ conn.inbound ++ conn.parked.toList
  removed : ∀ id, endpoint.state.conns.get? id = none →
    (endpoint.history id).offered = (endpoint.history id).received
  received : ∀ id lane0Only frame state,
    endpoint.state.recvView id lane0Only = some (.ok (some frame), state) →
    ((endpoint.history id).received ++ [frame]).IsPrefix (endpoint.history id).offered
  tight : Tight endpoint.state
  -- The close is emitted once, after the reader, and reported last.
  emitted_le : ∀ id,
    closedNotices id endpoint.state.events + (endpoint.history id).polled ≤ 1
  emitted_last : ∀ id,
    0 < closedNotices id endpoint.state.events + (endpoint.history id).polled →
    (endpoint.tasks id).reader.alive = false ∧
      ∀ answer, (endpoint.tasks id).stage ≠ .starting answer
  reported_last : ∀ id lane0Only reason state,
    endpoint.state.recvView id lane0Only = some (.error (.closed reason), state) →
    (endpoint.history id).offered = (endpoint.history id).received ∧
      ∃ conn, endpoint.state.conns.get? id = some conn ∧ conn.inbound = [] ∧ conn.parked = none
  -- A slot is given back once, and by the time the record is removed.
  live : endpoint.state.live = endpoint.handshakes + (holders endpoint).card
  returned_le : ∀ id, (endpoint.history id).polled + (endpoint.history id).failed ≤ 1
  returned : ∀ id, 0 < id → id < endpoint.state.nextId → endpoint.state.conns.get? id = none →
    (endpoint.history id).polled + (endpoint.history id).failed = 1

/-- What polling has given back of a stored connection. -/
theorem Life.polled_le {tasks : Tasks} {history : History} {notices : ℕ}
    (hlife : Life conn tasks history notices) : notices + history.polled ≤ 1 := by
  rw [hlife.notices_eq]
  split_ifs
  · exact le_rfl
  · exact Nat.zero_le _

theorem Life.published_of_emitted {tasks : Tasks} {history : History} {notices : ℕ}
    (hlife : Life conn tasks history notices) (hemitted : 0 < notices + history.polled) :
    conn.published = true := by
  by_contra hpublished
  rw [hlife.notices_eq, if_neg hpublished] at hemitted
  exact absurd hemitted (lt_irrefl 0)

theorem Safe.promised {inboundCaps outboundCaps : QueueCaps}
    (hsafe : Safe (inboundCaps, outboundCaps) endpoint) (maxConnections : ℕ) :
    Promised maxConnections inboundCaps outboundCaps endpoint := by
  have hinv := hsafe.invariant
  obtain ⟨hin, hout⟩ := Prod.mk.inj hinv.caps_eq
  constructor
  · exact hin
  · exact hout
  · exact hinv.totals
  · intro id conn hget
    rw [← hin, ← hout]
    exact ((hinv.lanes id).present conn hget).queues
  · intro action hallowed
    obtain ⟨next, hstep, -⟩ := hsafe.step maxConnections hallowed
    rw [hstep]
    rfl
  · intro id conn hget
    rw [List.append_assoc]
    exact ((hinv.lanes id).present conn hget).ordered
  · intro id hget
    cases (hinv.lanes id).absent hget with
    | unassigned _ hhistory =>
      rw [hhistory]
      rfl
    | forgotten _ _ _ _ hordered => exact hordered
  · intro id lane0Only frame state hview
    rcases hsafe.recvView_cases id lane0Only with ⟨fault, hcase, -⟩ |
      ⟨conn, found, rest, hget, hinbound, hcase⟩ | hcase | ⟨conn, -, -, -, hcase⟩
    · rw [hcase] at hview
      cases (Prod.mk.inj (Option.some.inj hview)).1
    · rw [hcase] at hview
      have hframe := Option.some.inj (Except.ok.inj (Prod.mk.inj (Option.some.inj hview)).1)
      have hordered := ((hinv.lanes id).present conn hget).ordered
      refine ⟨rest ++ conn.parked.toList, ?_⟩
      rw [hordered, Conn.held, hinbound, hframe]
      simp
    · rw [hcase] at hview
      cases Except.ok.inj (Prod.mk.inj (Option.some.inj hview)).1
    · rw [hcase] at hview
      cases (Prod.mk.inj (Option.some.inj hview)).1
  · exact hsafe.tight
  · intro id
    cases hget : endpoint.state.conns.get? id with
    | none =>
      cases (hinv.lanes id).absent hget with
      | unassigned _ hhistory hnotices =>
        rw [hhistory, hnotices]
        exact Nat.zero_le _
      | forgotten _ _ _ _ _ hnotices hreturned => omega
    | some conn => exact ((hinv.lanes id).present conn hget).life.polled_le
  · intro id hemitted
    cases hget : endpoint.state.conns.get? id with
    | none =>
      cases (hinv.lanes id).absent hget with
      | unassigned htasks =>
        rw [htasks]
        exact ⟨rfl, fun _ h ↦ by cases h⟩
      | forgotten _ _ hstarting hreader => exact ⟨hreader, hstarting⟩
    | some conn =>
      have hlife := ((hinv.lanes id).present conn hget).life
      have hpublished := hlife.published_of_emitted hemitted
      exact ⟨hlife.not_alive hpublished, hlife.not_starting hpublished⟩
  · intro id lane0Only reason state hview
    rcases hsafe.recvView_cases id lane0Only with ⟨fault, hcase, hfault⟩ |
      ⟨conn, found, rest, -, -, hcase⟩ | hcase | ⟨conn, hget, hpublished, hinbound, -⟩
    · rw [hcase] at hview
      exact absurd (Except.error.inj (Prod.mk.inj (Option.some.inj hview)).1) (hfault reason)
    · rw [hcase] at hview
      cases (Prod.mk.inj (Option.some.inj hview)).1
    · rw [hcase] at hview
      cases (Prod.mk.inj (Option.some.inj hview)).1
    · obtain ⟨-, hordered, hlife⟩ := (hinv.lanes id).present conn hget
      have hparked := hlife.parked_none hpublished
      refine ⟨?_, conn, hget, hinbound, hparked⟩
      rw [hordered, Conn.held, hinbound, hparked]
      exact List.append_nil _
  · exact hinv.live
  · intro id
    cases hget : endpoint.state.conns.get? id with
    | none =>
      cases (hinv.lanes id).absent hget with
      | unassigned _ hhistory =>
        rw [hhistory]
        exact Nat.zero_le _
      | forgotten _ _ _ _ _ _ hreturned => exact hreturned.le
    | some conn =>
      have hlife := ((hinv.lanes id).present conn hget).life
      have hpolled := hlife.polled_le
      rw [hlife.failed]
      omega
  · intro id hpos hlt hget
    cases (hinv.lanes id).absent hget with
    | unassigned htasks =>
      have hunassigned := (hinv.lanes id).unassigned_iff.mp (by rw [htasks]; rfl)
      omega
    | forgotten _ _ _ _ _ _ hreturned => exact hreturned

/-- In every run of a server, whatever its tasks and its caller do and in whatever order, the queues
keep their promises. -/
theorem queues_promised {maxConnections : ℕ} {inboundCaps outboundCaps : QueueCaps}
    {endpoint : Endpoint} (hreaches : Reaches (Endpoint.step maxConnections) Endpoint.Allowed
      (.new inboundCaps outboundCaps) endpoint) :
    Promised maxConnections inboundCaps outboundCaps endpoint := by
  apply Safe.promised
  refine Reaches.preserves ?_ (Safe.new inboundCaps outboundCaps) hreaches
  intro state action next hsafe hallowed hstep
  obtain ⟨found, hfound, hnext⟩ := hsafe.step maxConnections hallowed
  rw [hfound, Option.some.injEq] at hstep
  rw [← hstep]
  exact hnext

/-- A connection resumes, and of two frames offered under a cap of one the second is parked. -/
theorem queues_promised_parked :
    ∃ endpoint, (endpoint.state.conns.get? 1).any (·.parked.isSome) = true ∧
      Promised 1 ⟨1, 8, 1, 8⟩ ⟨1, 8, 1, 8⟩ endpoint := by
  have hstart : Reaches (Endpoint.step 1) Endpoint.Allowed (.new ⟨1, 8, 1, 8⟩ ⟨1, 8, 1, 8⟩)
      (.new ⟨1, 8, 1, 8⟩ ⟨1, 8, 1, 8⟩) := .refl
  have hadmitted := hstart.step (show Endpoint.Allowed _ .incoming from trivial) rfl
  have hconnected := hadmitted.step (show Endpoint.Allowed _ (.connected .v1) from Nat.one_pos) rfl
  have hresumed := hconnected.step (show Endpoint.Allowed _ (.resumeRead 1 [3]) from rfl) rfl
  have haccepted := hresumed.step (show Endpoint.Allowed _ (.acceptResume 1 [4]) from trivial) rfl
  have hdecided := haccepted.step (show Endpoint.Allowed _ (.decide 1) from rfl) rfl
  have hstarted := hdecided.step (show Endpoint.Allowed _ (.started 1) from ⟨_, rfl⟩) rfl
  have hqueued := hstarted.step (show Endpoint.Allowed _ (.offer 1 (.lane0, [5])) from rfl) rfl
  have hparked := hqueued.step (show Endpoint.Allowed _ (.offer 1 (.lane0, [6])) from rfl) rfl
  exact ⟨_, rfl, queues_promised hparked⟩

end Crpg.Quic
