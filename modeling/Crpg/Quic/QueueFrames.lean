import Crpg.Quic.QueueSteps

/-!
# Frames through the QUIC queues

The steps that move frames: the reader offers one, the API receives one and lets parked frames in,
the API queues one to send and the writer takes one. Each keeps `Safe`; a receive ends with no
parked frame that fits, because the host only fills up while the records are visited.
-/

set_option autoImplicit false

namespace Crpg.Quic

open Crpg.Lib Crpg.Net

variable {caps : QueueCaps × QueueCaps}

/-! ### Room -/

variable {conn : Conn}

theorem le_of_inboundRoom {caps : QueueCaps} {frames bytes len : ℕ}
    (hroom : inboundRoom caps conn frames bytes len = true) :
    conn.inbound.length < caps.perPeerFrames ∧ conn.inboundBytes + len ≤ caps.perPeerBytes ∧
      frames < caps.hostFrames ∧ bytes + len ≤ caps.hostBytes := by
  simp only [inboundRoom, fits, Bool.and_eq_true, decide_eq_true_eq] at hroom
  omega

/-- A record with a frame behind the others. -/
def Conn.enqueued (conn : Conn) (frame : Frame) : Conn :=
  { conn with
    inbound := conn.inbound ++ [frame]
    inboundBytes := conn.inboundBytes + frame.2.length }

variable {inbound outbound : QueueCaps} {frame : Frame} {state : State} {id : ℕ}

theorem Queues.enqueued {frames bytes : ℕ} (hqueues : Queues inbound outbound conn)
    (hroom : inboundRoom inbound conn frames bytes frame.2.length = true) :
    Queues inbound outbound (conn.enqueued frame) := by
  obtain ⟨hlength, hbytes, -, -⟩ := le_of_inboundRoom hroom
  exact { hqueues with
    inBytes := by
      show conn.inboundBytes + frame.2.length = frameBytes (conn.inbound ++ [frame])
      rw [hqueues.inBytes, frameBytes_append]
      rfl
    inFrames_le := by
      show (conn.inbound ++ [frame]).length ≤ inbound.perPeerFrames
      rw [List.length_append, List.length_singleton]
      exact hlength
    inBytes_le := hbytes }

theorem Moved.enqueue (htotals : Totals state)
    (hroom : inboundRoom state.inboundCaps conn state.inboundFrames
      state.inboundBytes frame.2.length = true) :
    Moved state (state.enqueue id conn frame) conn (conn.enqueued frame) := by
  obtain ⟨-, -, hframes, hbytes⟩ := le_of_inboundRoom hroom
  constructor
  · show state.inboundFrames + 1 + conn.inbound.length =
      state.inboundFrames + (conn.inbound ++ [frame]).length
    rw [List.length_append, List.length_singleton]
    omega
  · show state.inboundBytes + frame.2.length + conn.inboundBytes =
      state.inboundBytes + (conn.inboundBytes + frame.2.length)
    omega
  · rfl
  · rfl
  · exact hframes
  · exact hbytes
  · exact htotals.outFrames_le
  · exact htotals.outBytes_le

/-! ### Parked frames are let in -/

/-- The record after its parked frame is let in. -/
def Conn.promoted (conn : Conn) (frame : Frame) : Conn :=
  ({ conn with parked := none } : Conn).enqueued frame

theorem State.promote_fits (hget : state.conns.get? id = some conn)
    (hparked : conn.parked = some frame)
    (hroom : inboundRoom state.inboundCaps conn state.inboundFrames state.inboundBytes
      frame.2.length = true) :
    state.promote id = state.enqueue id { conn with parked := none } frame := by
  simp only [State.promote, hget, hparked, hroom, ite_true]

/-- Without a parked frame that fits, nothing is let in. -/
theorem State.promote_stays (htight : ∀ conn, state.conns.get? id = some conn →
      conn.Tight state.inboundCaps state.inboundFrames state.inboundBytes) :
    state.promote id = state := by
  unfold State.promote
  cases hget : state.conns.get? id with
  | none => rfl
  | some conn =>
    simp only
    cases hparked : conn.parked with
    | none => rfl
    | some frame =>
      simp only
      rw [htight conn hget frame hparked]
      rfl

theorem State.promote_cases (state : State) (id : ℕ) :
    (∃ conn frame, state.conns.get? id = some conn ∧ conn.parked = some frame ∧
      inboundRoom state.inboundCaps conn state.inboundFrames state.inboundBytes frame.2.length =
        true ∧ state.promote id = state.enqueue id { conn with parked := none } frame) ∨
    ((∀ conn, state.conns.get? id = some conn →
      conn.Tight state.inboundCaps state.inboundFrames state.inboundBytes) ∧
      state.promote id = state) := by
  by_cases htight : ∀ conn, state.conns.get? id = some conn →
      conn.Tight state.inboundCaps state.inboundFrames state.inboundBytes
  · exact .inr ⟨htight, State.promote_stays htight⟩
  · unfold Conn.Tight at htight
    push Not at htight
    obtain ⟨conn, hget, frame, hparked, hroom⟩ := htight
    rw [Bool.ne_false_iff] at hroom
    exact .inl ⟨conn, frame, hget, hparked, hroom, State.promote_fits hget hparked hroom⟩

variable {endpoint : Endpoint}

/-- Letting a frame in keeps the invariant. -/
theorem Invariant.promote (hinv : Invariant caps endpoint) (id : ℕ) :
    Invariant caps (endpoint.withState (endpoint.state.promote id)) := by
  rcases endpoint.state.promote_cases id with
    ⟨conn, frame, hget, hparked, hroom, hpromote⟩ | ⟨-, hpromote⟩
  · rw [hpromote]
    obtain ⟨hqueues, hordered, hlife⟩ := (hinv.lanes id).present conn hget
    have hisParked : conn.parked.isSome = true := by
      rw [hparked]
      rfl
    have hactive := hlife.alive (by rw [hlife.parked hisParked]; rfl)
    obtain ⟨haccepted, hpublished⟩ := hlife.of_active hactive
    have hnot : ¬conn.published = true := by
      rw [hpublished]
      exact Bool.false_ne_true
    let taken : Conn := { conn with parked := none }
    have htaken : inboundRoom endpoint.state.inboundCaps taken endpoint.state.inboundFrames
        endpoint.state.inboundBytes frame.2.length = true := hroom
    have hmoved : Moved endpoint.state (endpoint.state.enqueue id taken frame) taken
        (taken.enqueued frame) := .enqueue hinv.totals htaken
    have hqueuesTaken : Queues endpoint.state.inboundCaps endpoint.state.outboundCaps taken :=
      { hqueues with }
    refine hinv.put hget rfl ⟨fun _ _ ↦ rfl, fun _ _ ↦ rfl, fun _ _ ↦ rfl, rfl, rfl, rfl, rfl⟩
      { hmoved with } ⟨hqueuesTaken.enqueued htaken, ?_, ?_⟩ hinv.live
    · show (endpoint.history id).offered = _ ++ (conn.inbound ++ [frame] ++ [])
      rw [hordered, Conn.held, hparked, List.append_nil]
      rfl
    · exact { hlife with
        unaccepted := fun hphase ↦ absurd haccepted hphase
        parked := fun hsome ↦ absurd hsome Bool.false_ne_true
        drained := fun hdrained ↦ absurd hdrained hnot
        reported := fun hreported ↦ absurd (hlife.reported hreported).1 hnot
        released := fun hreleased ↦ absurd (hlife.released hreleased).1 hnot }
  · rw [hpromote]
    exact hinv

/-- Every parked frame that does not fit still does not after one of the others is visited, and the
visited one does not either. -/
theorem State.tight_promote {rest : List ℕ}
    (htight : ∀ other conn, other ∉ id :: rest → state.conns.get? other = some conn →
      conn.Tight state.inboundCaps state.inboundFrames state.inboundBytes) {other : ℕ}
    (hrest : other ∉ rest) (hget : (state.promote id).conns.get? other = some conn) :
    conn.Tight (state.promote id).inboundCaps (state.promote id).inboundFrames
      (state.promote id).inboundBytes := by
  rcases state.promote_cases id with ⟨found, frame, hfound, hparked, hroom, hpromote⟩ | ⟨hid, hpromote⟩
  · rw [hpromote] at hget ⊢
    have hlookup : (if other = id then some (found.promoted frame) else state.conns.get? other) =
        some conn := (BTreeMap.get?_insert ..).symm.trans hget
    split_ifs at hlookup with hother
    · rw [← Option.some.inj hlookup]
      exact Conn.tight_of_none rfl
    · apply (htight other conn _ hlookup).mono (Nat.le_add_right _ _) (Nat.le_add_right _ _)
      rw [List.mem_cons, not_or]
      exact ⟨hother, hrest⟩
  · rw [hpromote] at hget ⊢
    by_cases hother : other = id
    · rw [hother] at hget
      exact hid conn hget
    · apply htight other conn _ hget
      rw [List.mem_cons, not_or]
      exact ⟨hother, hrest⟩

/-- After every record that may hold a fitting frame is visited, none does. -/
theorem State.tight_foldl_promote (ids : List ℕ) (state : State)
    (htight : ∀ other conn, other ∉ ids → state.conns.get? other = some conn →
      conn.Tight state.inboundCaps state.inboundFrames state.inboundBytes) :
    Tight (ids.foldl State.promote state) := by
  induction ids generalizing state with
  | nil => exact fun id conn hget ↦ htight id conn List.not_mem_nil hget
  | cons id rest ih =>
    rw [List.foldl_cons]
    exact ih (state.promote id) fun other conn hrest hget ↦ State.tight_promote htight hrest hget

theorem Invariant.foldl_promote (ids : List ℕ) (state : State)
    (hinv : Invariant caps (endpoint.withState state)) :
    Invariant caps (endpoint.withState (ids.foldl State.promote state)) := by
  induction ids generalizing state with
  | nil => exact hinv
  | cons id rest ih =>
    rw [List.foldl_cons]
    exact ih (state.promote id) (hinv.promote id)

/-- Letting in every parked frame that fits restores `Tight`. -/
theorem Safe.promoteParked (hinv : Invariant caps endpoint) :
    Safe caps (endpoint.withState endpoint.state.promoteParked) := by
  constructor
  · exact Invariant.foldl_promote _ endpoint.state hinv
  · apply State.tight_foldl_promote
    intro id conn hkeys hget
    exact absurd (endpoint.state.conns.mem_keys_iff.mpr ⟨conn, hget⟩) hkeys

/-! ### Frames are offered -/

/-- The connection of a running reader has a record. -/
theorem Safe.exists_conn (hsafe : Safe caps endpoint)
    (halive : (endpoint.tasks id).reader.alive = true) :
    ∃ conn, endpoint.state.conns.get? id = some conn := by
  by_contra hnone
  rw [← Option.ne_none_iff_exists', not_not] at hnone
  cases (hsafe.invariant.lanes id).absent hnone with
  | unassigned htasks =>
    rw [htasks] at halive
    exact absurd halive (by decide)
  | forgotten _ _ _ hreader => exact absurd (hreader.symm.trans halive) Bool.false_ne_true

theorem Invariant.move {next : Conn} {tasks : Tasks} {history : History}
    (hinv : Invariant caps endpoint) (hget : endpoint.state.conns.get? id = some conn)
    (hconns : state.conns = endpoint.state.conns.insert id next)
    (hrest : state = { endpoint.state with
      conns := state.conns, inboundFrames := state.inboundFrames,
      inboundBytes := state.inboundBytes, outboundFrames := state.outboundFrames,
      outboundBytes := state.outboundBytes }) (hmoved : Moved endpoint.state state conn next)
    (hqueues : Queues endpoint.state.inboundCaps endpoint.state.outboundCaps next)
    (hordered : Ordered next history)
    (hlife : Life next tasks history (closedNotices id endpoint.state.events))
    (hreturned : history.polled + history.failed =
      (endpoint.history id).polled + (endpoint.history id).failed) :
    Invariant caps (((endpoint.withState state).setTasks id tasks).setHistory id history) := by
  let after := ((endpoint.withState state).setTasks id tasks).setHistory id history
  have hhistory : after.history id = history := Function.update_self ..
  have htasks : after.tasks id = tasks := Function.update_self ..
  have hevents : state.events = endpoint.state.events := by rw [hrest]
  have hin : state.inboundCaps = endpoint.state.inboundCaps := by rw [hrest]
  have hout : state.outboundCaps = endpoint.state.outboundCaps := by rw [hrest]
  have hemits : state.emitEvents = endpoint.state.emitEvents := by rw [hrest]
  have hnextId : state.nextId = endpoint.state.nextId := by rw [hrest]
  have hlive : state.live = endpoint.state.live := by rw [hrest]
  refine hinv.put hget hconns ⟨fun other hne ↦ Function.update_of_ne hne .., fun other hne ↦
    Function.update_of_ne hne .., fun other _ ↦ congrArg (closedNotices other) hevents, hin, hout,
    hemits, hnextId⟩ hmoved ⟨?_, ?_, ?_⟩ ?_
  · show Queues state.inboundCaps state.outboundCaps next
    rw [hin, hout]
    exact hqueues
  · rw [hhistory]
    exact hordered
  · rw [htasks, hhistory]
    show Life next tasks history (closedNotices id state.events)
    rw [hevents]
    exact hlife
  · have hholders : holders after = holders endpoint := by
      refine holders_congr hnextId fun other ↦ ?_
      by_cases hother : other = id
      · rw [hother, hhistory]
        exact hreturned
      · rw [show after.history other = endpoint.history other from Function.update_of_ne hother ..]
    show state.live = endpoint.handshakes + (holders after).card
    rw [hlive, hholders]
    exact hinv.live

theorem Safe.offer (hsafe : Safe caps endpoint) (frame : Frame)
    (hreader : (endpoint.tasks id).reader = .running) : Safe caps (endpoint.offer id frame) := by
  have halive : (endpoint.tasks id).reader.alive = true := by
    rw [hreader]
    rfl
  obtain ⟨conn, hget⟩ := hsafe.exists_conn halive
  have hinv := hsafe.invariant
  obtain ⟨hqueues, hordered, hlife⟩ := (hinv.lanes id).present conn hget
  obtain ⟨haccepted, hpublished⟩ := hlife.of_active (hlife.alive halive)
  have hnot : ¬conn.published = true := by
    rw [hpublished]
    exact Bool.false_ne_true
  have hparked : conn.parked = none := by
    by_contra hsome
    have hwaiting := hlife.parked (Option.isSome_iff_ne_none.mpr hsome)
    rw [hreader] at hwaiting
    exact absurd hwaiting (by decide)
  by_cases hroom : inboundRoom endpoint.state.inboundCaps conn endpoint.state.inboundFrames
      endpoint.state.inboundBytes frame.2.length = true
  · have hoffer : endpoint.state.offerInbound id frame =
        (.queued, endpoint.state.enqueue id conn frame) := by
      simp only [State.offerInbound, hget, hroom, ite_true]
    unfold Endpoint.offer
    rw [hoffer]
    have hstill : conn.parked.isSome = true → Reader.running = .waiting := by
      rw [hparked]
      exact fun hsome ↦ absurd hsome Bool.false_ne_true
    have hnext := hlife.setReader halive hstill
    constructor
    · refine hinv.move hget rfl rfl (.enqueue hinv.totals hroom) (hqueues.enqueued hroom) ?_ ?_ rfl
      · show (endpoint.history id).offered ++ [frame] =
          (endpoint.history id).received ++ (conn.inbound ++ [frame] ++ conn.parked.toList)
        rw [hordered, Conn.held, hparked]
        simp
      · exact { hnext with
          unaccepted := fun hphase ↦ absurd haccepted hphase
          drained := fun hdrained ↦ absurd hdrained hnot
          reported := fun hreported ↦ absurd (hlife.reported hreported).1 hnot
          released := fun hreleased ↦ absurd (hlife.released hreleased).1 hnot }
    · exact hsafe.tight.put rfl rfl (Nat.le_add_right _ _) (Nat.le_add_right _ _)
        (Conn.tight_of_none hparked)
  · rw [Bool.not_eq_true] at hroom
    have hoffer : endpoint.state.offerInbound id frame =
        (.parked, endpoint.state.setConn id { conn with parked := some frame }) := by
      simp only [State.offerInbound, hget, hroom, Bool.false_eq_true, ite_false]
    unfold Endpoint.offer
    rw [hoffer]
    have hnext := hlife.setReader halive fun _ ↦ (rfl : Reader.waiting = .waiting)
    constructor
    · refine hinv.move hget rfl rfl ?_ { hqueues with } ?_ ?_ rfl
      · exact { Moved.same hinv.totals (.refl conn) rfl rfl rfl rfl with }
      · show (endpoint.history id).offered ++ [frame] =
          (endpoint.history id).received ++ (conn.inbound ++ [frame])
        rw [hordered, Conn.held, hparked]
        simp
      · exact { hnext with
          unaccepted := fun hphase ↦ absurd haccepted hphase
          parked := fun _ ↦ rfl }
    · refine hsafe.tight.put rfl rfl le_rfl le_rfl fun found hfound ↦ ?_
      rw [← Option.some.inj hfound]
      exact hroom

/-! ### Frames are received -/

/-- The state after a frame leaves the head of its queue. -/
def State.dequeued (state : State) (id : ℕ) (conn : Conn) (frame : Frame) (rest : List Frame) :
    State :=
  { state.setConn id { conn with
      inbound := rest, inboundBytes := conn.inboundBytes - frame.2.length } with
    inboundFrames := state.inboundFrames - 1
    inboundBytes := state.inboundBytes - frame.2.length }

variable {rest : List Frame} {payload : List UInt8} {channel : Channel}

theorem Totals.head_le (htotals : Totals state) (hqueues : Queues inbound outbound conn)
    (hget : state.conns.get? id = some conn) (hinbound : conn.inbound = frame :: rest) :
    frame.2.length ≤ conn.inboundBytes ∧ 1 ≤ state.inboundFrames ∧
      frame.2.length ≤ state.inboundBytes := by
  have hframes := state.conns.le_sum hget fun conn ↦ conn.inbound.length
  have hbytes := state.conns.le_sum hget fun conn ↦ conn.inboundBytes
  rw [← htotals.inFrames, hinbound, List.length_cons] at hframes
  rw [← htotals.inBytes] at hbytes
  have hheld := hqueues.inBytes
  rw [hinbound, frameBytes_cons] at hheld
  omega

theorem State.popInbound_cons (htotals : Totals state) (hqueues : Queues inbound outbound conn)
    (hget : state.conns.get? id = some conn) (hinbound : conn.inbound = frame :: rest) :
    state.popInbound id = some (some frame, (state.dequeued id conn frame rest).promoteParked) := by
  obtain ⟨hheld, hframes, hbytes⟩ := htotals.head_le hqueues hget hinbound
  unfold State.popInbound
  rw [hget]
  simp only [hinbound, checkedSub_of_le hheld, checkedSub_of_le hframes, checkedSub_of_le hbytes,
    Option.bind_eq_bind, Option.bind_some]
  rfl

/-- Nothing is received from an empty queue. -/
theorem State.popInbound_nil (hget : state.conns.get? id = some conn)
    (hinbound : conn.inbound = []) : state.popInbound id = some (none, state) := by
  unfold State.popInbound
  rw [hget]
  simp only [hinbound]

theorem Endpoint.setTasks_self (endpoint : Endpoint) (id : ℕ) :
    endpoint.setTasks id (endpoint.tasks id) = endpoint := by
  unfold Endpoint.setTasks
  rw [Function.update_eq_self]

theorem Safe.received (hsafe : Safe caps endpoint)
    (hget : endpoint.state.conns.get? id = some conn) (hinbound : conn.inbound = frame :: rest) :
    Safe caps ((endpoint.withState (endpoint.state.dequeued id conn frame rest).promoteParked).setHistory
      id { endpoint.history id with received := (endpoint.history id).received ++ [frame] }) := by
  have hinv := hsafe.invariant
  obtain ⟨hqueues, hordered, hlife⟩ := (hinv.lanes id).present conn hget
  obtain ⟨hheld, hframes, hbytes⟩ := hinv.totals.head_le hqueues hget hinbound
  let history : History :=
    { endpoint.history id with received := (endpoint.history id).received ++ [frame] }
  let next : Conn :=
    { conn with inbound := rest, inboundBytes := conn.inboundBytes - frame.2.length }
  have hmoved : Moved endpoint.state (endpoint.state.dequeued id conn frame rest) conn next := by
    constructor
    · show endpoint.state.inboundFrames - 1 + conn.inbound.length =
        endpoint.state.inboundFrames + rest.length
      rw [hinbound, List.length_cons]
      omega
    · show endpoint.state.inboundBytes - frame.2.length + conn.inboundBytes =
        endpoint.state.inboundBytes + (conn.inboundBytes - frame.2.length)
      omega
    · rfl
    · rfl
    · exact (Nat.sub_le _ _).trans hinv.totals.inFrames_le
    · exact (Nat.sub_le _ _).trans hinv.totals.inBytes_le
    · exact hinv.totals.outFrames_le
    · exact hinv.totals.outBytes_le
  have hnextQueues : Queues endpoint.state.inboundCaps endpoint.state.outboundCaps next := by
    have hinBytes := hqueues.inBytes
    have hlength := hqueues.inFrames_le
    rw [hinbound, frameBytes_cons] at hinBytes
    rw [hinbound, List.length_cons] at hlength
    exact { hqueues with
      inBytes := by
        show conn.inboundBytes - frame.2.length = frameBytes rest
        omega
      inFrames_le := by
        show rest.length ≤ endpoint.state.inboundCaps.perPeerFrames
        omega
      inBytes_le := (Nat.sub_le _ _).trans hqueues.inBytes_le }
  have hordered' : Ordered next history := by
    show (endpoint.history id).offered =
      (endpoint.history id).received ++ [frame] ++ (rest ++ conn.parked.toList)
    rw [hordered, Conn.held, hinbound]
    simp
  have hfull : conn.inbound ≠ [] := by
    rw [hinbound]
    exact List.cons_ne_nil _ _
  have hlife' : Life next (endpoint.tasks id) history
      (closedNotices id endpoint.state.events) :=
    { hlife with
      unaccepted := fun hphase ↦ absurd (hlife.unaccepted hphase).1 hfull
      drained := fun hpublished hheldFrames ↦ absurd (hlife.drained hpublished hheldFrames) hfull
      reported := fun hreported ↦ absurd (hlife.reported hreported).2 hfull
      released := fun hreleased ↦ absurd (hlife.released hreleased).2.2 hfull }
  have htaken := hinv.move hget rfl rfl hmoved hnextQueues hordered' hlife' rfl
  rw [show (endpoint.withState (endpoint.state.dequeued id conn frame rest)).setTasks id
    (endpoint.tasks id) = endpoint.withState (endpoint.state.dequeued id conn frame rest) from
      Endpoint.setTasks_self (endpoint.withState _) id] at htaken
  exact Safe.promoteParked htaken

/-! ### Frames are sent -/

theorem framed_length {frame : List UInt8} {cap : ℕ} (hframed : framed payload cap = .ok frame) :
    frame.length = frameHeaderBytes + payload.length := by
  unfold framed at hframed
  cases hheader : frameHeader payload.length cap with
  | error fault =>
    rw [hheader] at hframed
    exact nomatch hframed
  | ok header =>
    rw [hheader] at hframed
    rw [← Except.ok.inj hframed, List.length_append, Vector.length_toList]

theorem framedChannel_length {frame : List UInt8} {cap : ℕ}
    (hframed : framedChannel channel payload cap = .ok frame) :
    frame.length = frameHeaderBytes + payload.length := by
  unfold framedChannel at hframed
  cases hheader : channelFrameHeader channel payload.length cap with
  | error fault =>
    rw [hheader] at hframed
    exact nomatch hframed
  | ok header =>
    rw [hheader] at hframed
    rw [← Except.ok.inj hframed, List.length_append, Vector.length_toList]

/-- A record with a frame to send behind the others. -/
def Conn.sending (conn : Conn) (frame : List UInt8) (len : ℕ) : Conn :=
  { conn with
    outbound := conn.outbound ++ [frame]
    outboundBytes := conn.outboundBytes + len }

theorem State.queueOutbound_cases {queued : State}
    (hqueued : state.queueOutbound id channel payload = .ok queued) :
    ∃ conn frame, state.conns.get? id = some conn ∧
      frame.length = frameHeaderBytes + payload.length ∧
      conn.outbound.length < state.outboundCaps.perPeerFrames ∧
      conn.outboundBytes + payload.length ≤ state.outboundCaps.perPeerBytes ∧
      state.outboundFrames < state.outboundCaps.hostFrames ∧
      state.outboundBytes + payload.length ≤ state.outboundCaps.hostBytes ∧
      queued = { state.setConn id (conn.sending frame payload.length) with
        outboundFrames := state.outboundFrames + 1
        outboundBytes := state.outboundBytes + payload.length } := by
  unfold State.queueOutbound at hqueued
  cases hget : state.conns.get? id with
  | none =>
    rw [hget] at hqueued
    cases hqueued
  | some conn =>
    rw [hget] at hqueued
    simp only at hqueued
    split_ifs at hqueued with hroom
    rw [Bool.not_eq_false] at hroom
    simp only [fits, Bool.and_eq_true, decide_eq_true_eq] at hroom
    split at hqueued
    · cases hqueued
    · next frame hframe =>
      refine ⟨conn, frame, rfl, ?_, by omega, by omega, by omega, by omega,
        (Except.ok.inj hqueued).symm⟩
      cases hframing : conn.framing with
      | v1 =>
        rw [hframing] at hframe
        exact framed_length hframe
      | v2 =>
        rw [hframing] at hframe
        exact framedChannel_length hframe

/-- The API queues a frame to send. Assumes: the connection is accepted and open. -/
theorem Safe.queueOutbound {queued : State} (hsafe : Safe caps endpoint)
    (hqueued : endpoint.state.queueOutbound id channel payload = .ok queued)
    (hopen : ∀ conn, endpoint.state.conns.get? id = some conn →
      conn.phase = .accepted ∧ conn.reason = none) : Safe caps (endpoint.withState queued) := by
  obtain ⟨conn, frame, hget, hframe, hlength, hbytes, hhostFrames, hhostBytes, heq⟩ :=
    State.queueOutbound_cases hqueued
  obtain ⟨haccepted, hreason⟩ := hopen conn hget
  have hinv := hsafe.invariant
  obtain ⟨hqueues, hordered, hlife⟩ := (hinv.lanes id).present conn hget
  have hmoved : Moved endpoint.state queued conn (conn.sending frame payload.length) := by
    rw [heq]
    constructor
    · rfl
    · rfl
    · show endpoint.state.outboundFrames + 1 + conn.outbound.length =
        endpoint.state.outboundFrames + (conn.outbound ++ [frame]).length
      rw [List.length_append, List.length_singleton]
      omega
    · show endpoint.state.outboundBytes + payload.length + conn.outboundBytes =
        endpoint.state.outboundBytes + (conn.outboundBytes + payload.length)
      omega
    · exact hinv.totals.inFrames_le
    · exact hinv.totals.inBytes_le
    · exact hhostFrames
    · exact hhostBytes
  have hnextQueues : Queues endpoint.state.inboundCaps endpoint.state.outboundCaps
      (conn.sending frame payload.length) :=
    { hqueues with
      framed := by
        intro found hfound
        rcases List.mem_append.mp hfound with hfound | hfound
        · exact hqueues.framed found hfound
        · rw [List.mem_singleton.mp hfound, hframe]
          exact Nat.le_add_right _ _
      outBytes := by
        show conn.outboundBytes + payload.length = payloadBytes (conn.outbound ++ [frame])
        rw [payloadBytes_append, ← hqueues.outBytes, payloadBytes_cons, hframe,
          Nat.add_sub_cancel_left]
        rfl
      outFrames_le := by
        show (conn.outbound ++ [frame]).length ≤ endpoint.state.outboundCaps.perPeerFrames
        rw [List.length_append, List.length_singleton]
        exact hlength
      outBytes_le := hbytes }
  have hnextLife : Life (conn.sending frame payload.length) (endpoint.tasks id)
      (endpoint.history id) (closedNotices id endpoint.state.events) :=
    { hlife with
      unaccepted := fun hphase ↦ absurd haccepted hphase
      silent := fun hsome ↦ by
        rw [show (conn.sending frame payload.length).reason = conn.reason from rfl, hreason] at hsome
        exact absurd hsome Bool.false_ne_true }
  have hnextTight : (conn.sending frame payload.length).Tight endpoint.state.inboundCaps
      endpoint.state.inboundFrames endpoint.state.inboundBytes := hsafe.tight id conn hget
  subst heq
  constructor
  · exact hinv.put hget rfl ⟨fun _ _ ↦ rfl, fun _ _ ↦ rfl, fun _ _ ↦ rfl, rfl, rfl, rfl, rfl⟩ hmoved
      ⟨hnextQueues, hordered, hnextLife⟩ hinv.live
  · exact hsafe.tight.put rfl rfl le_rfl le_rfl hnextTight

/-- The state after a frame is handed to the transport. -/
def State.sent (state : State) (id : ℕ) (conn : Conn) (frame : List UInt8)
    (rest : List (List UInt8)) : State :=
  { state.setConn id { conn with
      outbound := rest
      outboundBytes := conn.outboundBytes - (frame.length - frameHeaderBytes) } with
    outboundFrames := state.outboundFrames - 1
    outboundBytes := state.outboundBytes - (frame.length - frameHeaderBytes) }

/-- The writer takes a frame, and nothing it subtracts underflows. -/
theorem Safe.popOutbound {frame : List UInt8} {rest : List (List UInt8)}
    (hsafe : Safe caps endpoint) (hget : endpoint.state.conns.get? id = some conn)
    (houtbound : conn.outbound = frame :: rest) : endpoint.state.popOutbound id =
      some (some frame, endpoint.state.sent id conn frame rest) ∧
    Safe caps (endpoint.withState (endpoint.state.sent id conn frame rest)) := by
  have hinv := hsafe.invariant
  obtain ⟨hqueues, hordered, hlife⟩ := (hinv.lanes id).present conn hget
  have hframes := endpoint.state.conns.le_sum hget fun conn ↦ conn.outbound.length
  have hbytes := endpoint.state.conns.le_sum hget fun conn ↦ conn.outboundBytes
  rw [← hinv.totals.outFrames, houtbound, List.length_cons] at hframes
  rw [← hinv.totals.outBytes] at hbytes
  have hheld := hqueues.outBytes
  rw [houtbound, payloadBytes_cons] at hheld
  have hheader : frameHeaderBytes ≤ frame.length := by
    apply hqueues.framed
    rw [houtbound]
    exact List.mem_cons_self
  have hone : 1 ≤ endpoint.state.outboundFrames := by omega
  have hlen : frame.length - frameHeaderBytes ≤ conn.outboundBytes := by omega
  have hhost : frame.length - frameHeaderBytes ≤ endpoint.state.outboundBytes := by omega
  let next : Conn := { conn with
    outbound := rest
    outboundBytes := conn.outboundBytes - (frame.length - frameHeaderBytes) }
  constructor
  · unfold State.popOutbound
    rw [hget]
    simp only [houtbound, checkedSub_of_le hheader, checkedSub_of_le hlen, checkedSub_of_le hone,
      checkedSub_of_le hhost, Option.bind_eq_bind, Option.bind_some]
    rfl
  · have hmoved : Moved endpoint.state (endpoint.state.sent id conn frame rest) conn next := by
      constructor
      · rfl
      · rfl
      · show endpoint.state.outboundFrames - 1 + conn.outbound.length =
          endpoint.state.outboundFrames + rest.length
        rw [houtbound, List.length_cons]
        omega
      · show endpoint.state.outboundBytes - (frame.length - frameHeaderBytes) + conn.outboundBytes =
          endpoint.state.outboundBytes +
            (conn.outboundBytes - (frame.length - frameHeaderBytes))
        omega
      · exact hinv.totals.inFrames_le
      · exact hinv.totals.inBytes_le
      · exact (Nat.sub_le _ _).trans hinv.totals.outFrames_le
      · exact (Nat.sub_le _ _).trans hinv.totals.outBytes_le
    have hlength := hqueues.outFrames_le
    rw [houtbound, List.length_cons] at hlength
    have hnextQueues : Queues endpoint.state.inboundCaps endpoint.state.outboundCaps next :=
      { hqueues with
        framed := fun found hfound ↦ hqueues.framed found (by
          rw [houtbound]
          exact List.mem_cons_of_mem _ hfound)
        outBytes := by
          show conn.outboundBytes - (frame.length - frameHeaderBytes) = payloadBytes rest
          omega
        outFrames_le := by
          show rest.length ≤ endpoint.state.outboundCaps.perPeerFrames
          omega
        outBytes_le := (Nat.sub_le _ _).trans hqueues.outBytes_le }
    have hfull : conn.outbound ≠ [] := by
      rw [houtbound]
      exact List.cons_ne_nil _ _
    have hnextLife : Life next (endpoint.tasks id) (endpoint.history id)
        (closedNotices id endpoint.state.events) :=
      { hlife with
        unaccepted := fun hphase ↦ absurd (hlife.unaccepted hphase).2.2.1 hfull
        silent := fun hsome ↦ absurd (hlife.silent hsome) hfull }
    have hnextTight : next.Tight endpoint.state.inboundCaps endpoint.state.inboundFrames
        endpoint.state.inboundBytes := hsafe.tight id conn hget
    constructor
    · exact hinv.put hget rfl ⟨fun _ _ ↦ rfl, fun _ _ ↦ rfl, fun _ _ ↦ rfl, rfl, rfl, rfl, rfl⟩
        hmoved ⟨hnextQueues, hordered, hnextLife⟩ hinv.live
    · exact hsafe.tight.put rfl rfl le_rfl le_rfl hnextTight

/-- The writer finds nothing to send. -/
theorem State.popOutbound_nil (hget : state.conns.get? id = some conn)
    (houtbound : conn.outbound = []) : state.popOutbound id = some (none, state) := by
  unfold State.popOutbound
  rw [hget]
  simp only [houtbound]

end Crpg.Quic
