import Crpg.Quic.QueueInvariant

/-!
# Steps keep the QUIC queues

Each step replaces one record, with its tasks and its history, and moves the totals by what the
record gained or lost. `Invariant.put` is the rule for such a step; the lemmas after it apply the
rule to the methods of the state, and the last ones to the actions.
-/

set_option autoImplicit false

namespace Crpg.Quic

open Crpg.Lib Crpg.Net

variable {caps : QueueCaps × QueueCaps}

/-! ### One record is replaced -/

/-- Nothing changes but for one connection. -/
structure Elsewhere (id : ℕ) (before after : Endpoint) : Prop where
  tasks : ∀ other, other ≠ id → after.tasks other = before.tasks other
  history : ∀ other, other ≠ id → after.history other = before.history other
  notices : ∀ other, other ≠ id →
    closedNotices other after.state.events = closedNotices other before.state.events
  inboundCaps : after.state.inboundCaps = before.state.inboundCaps
  outboundCaps : after.state.outboundCaps = before.state.outboundCaps
  emits : after.state.emitEvents = before.state.emitEvents
  nextId : after.state.nextId = before.state.nextId

/-- The totals move as a record does, within the caps. -/
structure Moved (before after : State) (conn next : Conn) : Prop where
  inFrames : after.inboundFrames + conn.inbound.length =
    before.inboundFrames + next.inbound.length
  inBytes : after.inboundBytes + conn.inboundBytes = before.inboundBytes + next.inboundBytes
  outFrames : after.outboundFrames + conn.outbound.length =
    before.outboundFrames + next.outbound.length
  outBytes : after.outboundBytes + conn.outboundBytes = before.outboundBytes + next.outboundBytes
  inFrames_le : after.inboundFrames ≤ before.inboundCaps.hostFrames
  inBytes_le : after.inboundBytes ≤ before.inboundCaps.hostBytes
  outFrames_le : after.outboundFrames ≤ before.outboundCaps.hostFrames
  outBytes_le : after.outboundBytes ≤ before.outboundCaps.hostBytes

variable {id frames : ℕ}

theorem LaneInvariant.elsewhere {before after : Endpoint} {other : ℕ}
    (hlane : LaneInvariant before other) (helse : Elsewhere id before after) (hne : other ≠ id)
    (hget : after.state.conns.get? other = before.state.conns.get? other) :
    LaneInvariant after other := by
  have htasks := helse.tasks other hne
  have hhistory := helse.history other hne
  have hnotices := helse.notices other hne
  constructor
  · intro conn hconn
    rw [hget] at hconn
    obtain ⟨hqueues, hordered, hlife⟩ := hlane.present conn hconn
    constructor
    · rw [helse.inboundCaps, helse.outboundCaps]
      exact hqueues
    · rw [hhistory]
      exact hordered
    · rw [htasks, hhistory, hnotices]
      exact hlife
  · intro hnone
    rw [hget] at hnone
    rw [htasks, hhistory, hnotices]
    exact hlane.absent hnone
  · rw [htasks, helse.nextId]
    exact hlane.unassigned_iff

variable {conn next : Conn}

theorem Totals.put {before after : State} (htotals : Totals before)
    (hget : before.conns.get? id = some conn) (hconns : after.conns = before.conns.insert id next)
    (hin : after.inboundCaps = before.inboundCaps)
    (hout : after.outboundCaps = before.outboundCaps) (hmoved : Moved before after conn next) :
    Totals after := by
  have hinFrames := before.conns.sum_insert_of_get? hget next fun conn ↦ conn.inbound.length
  have hinBytes := before.conns.sum_insert_of_get? hget next fun conn ↦ conn.inboundBytes
  have houtFrames := before.conns.sum_insert_of_get? hget next fun conn ↦ conn.outbound.length
  have houtBytes := before.conns.sum_insert_of_get? hget next fun conn ↦ conn.outboundBytes
  obtain ⟨hmoveInFrames, hmoveInBytes, hmoveOutFrames, hmoveOutBytes, hinFramesLe, hinBytesLe,
    houtFramesLe, houtBytesLe⟩ := hmoved
  obtain ⟨hsumInFrames, hsumInBytes, hsumOutFrames, hsumOutBytes, -, -, -, -⟩ := htotals
  constructor
  · rw [hconns]
    omega
  · rw [hconns]
    omega
  · rw [hconns]
    omega
  · rw [hconns]
    omega
  · rw [hin]
    exact hinFramesLe
  · rw [hin]
    exact hinBytesLe
  · rw [hout]
    exact houtFramesLe
  · rw [hout]
    exact houtBytesLe

/-- The slots after a step that gives none back and takes none. -/
theorem holders_congr {before after : Endpoint} (hnext : after.state.nextId = before.state.nextId)
    (hhistory : ∀ id, (after.history id).polled + (after.history id).failed =
      (before.history id).polled + (before.history id).failed) :
    holders after = holders before := by
  unfold holders
  rw [hnext]
  apply Finset.filter_congr
  intro id _
  rw [hhistory id]

/-- A record is replaced. -/
theorem Invariant.put {before after : Endpoint} (hinv : Invariant caps before)
    (hget : before.state.conns.get? id = some conn)
    (hconns : after.state.conns = before.state.conns.insert id next)
    (helse : Elsewhere id before after) (hmoved : Moved before.state after.state conn next)
    (hpresent : Present after id next)
    (hlive : after.state.live = after.handshakes + (holders after).card) :
    Invariant caps after := by
  constructor
  · rw [helse.inboundCaps, helse.outboundCaps]
    exact hinv.caps_eq
  · rw [helse.emits]
    exact hinv.emits
  · rw [helse.nextId]
    exact hinv.next_pos
  · intro other
    by_cases hother : other = id
    · subst hother
      constructor
      · intro found hfound
        rw [hconns, BTreeMap.get?_insert_self, Option.some.injEq] at hfound
        rw [← hfound]
        exact hpresent
      · intro hnone
        rw [hconns, BTreeMap.get?_insert_self] at hnone
        exact absurd hnone (Option.some_ne_none _)
      · have hassigned := ((hinv.lanes other).present conn hget).life.assigned
        have hid := mt (hinv.lanes other).unassigned_iff.mpr hassigned
        rw [helse.nextId]
        exact iff_of_false hpresent.life.assigned hid
    · apply (hinv.lanes other).elsewhere helse hother
      rw [hconns, BTreeMap.get?_insert_of_ne _ hother]
  · exact hinv.totals.put hget hconns helse.inboundCaps helse.outboundCaps hmoved
  · exact hlive

structure SameQueues (conn next : Conn) : Prop where
  inbound : next.inbound = conn.inbound
  inboundBytes : next.inboundBytes = conn.inboundBytes
  parked : next.parked = conn.parked
  outbound : next.outbound = conn.outbound
  outboundBytes : next.outboundBytes = conn.outboundBytes

theorem SameQueues.refl (conn : Conn) : SameQueues conn conn := ⟨rfl, rfl, rfl, rfl, rfl⟩

theorem Queues.same {inbound outbound : QueueCaps} (hqueues : Queues inbound outbound conn)
    (hsame : SameQueues conn next) : Queues inbound outbound next := by
  obtain ⟨hinbound, hinboundBytes, -, houtbound, houtboundBytes⟩ := hsame
  constructor
  · rw [hinbound, hinboundBytes]
    exact hqueues.inBytes
  · rw [hinbound]
    exact hqueues.inFrames_le
  · rw [hinboundBytes]
    exact hqueues.inBytes_le
  · rw [houtbound]
    exact hqueues.framed
  · rw [houtbound, houtboundBytes]
    exact hqueues.outBytes
  · rw [houtbound]
    exact hqueues.outFrames_le
  · rw [houtboundBytes]
    exact hqueues.outBytes_le

theorem SameQueues.held (hsame : SameQueues conn next) : next.held = conn.held := by
  rw [Conn.held, hsame.inbound, hsame.parked, Conn.held]

theorem Moved.same {before after : State} (htotals : Totals before) (hsame : SameQueues conn next)
    (hinFrames : after.inboundFrames = before.inboundFrames)
    (hinBytes : after.inboundBytes = before.inboundBytes)
    (houtFrames : after.outboundFrames = before.outboundFrames)
    (houtBytes : after.outboundBytes = before.outboundBytes) : Moved before after conn next := by
  constructor
  · rw [hinFrames, hsame.inbound]
  · rw [hinBytes, hsame.inboundBytes]
  · rw [houtFrames, hsame.outbound]
  · rw [houtBytes, hsame.outboundBytes]
  · rw [hinFrames]
    exact htotals.inFrames_le
  · rw [hinBytes]
    exact htotals.inBytes_le
  · rw [houtFrames]
    exact htotals.outFrames_le
  · rw [houtBytes]
    exact htotals.outBytes_le

/-! ### Parked frames -/

theorem inboundRoom_mono {caps : QueueCaps} {bytes len moreFrames moreBytes : ℕ}
    (hroom : inboundRoom caps conn frames bytes len = false) (hframes : frames ≤ moreFrames)
    (hbytes : bytes ≤ moreBytes) : inboundRoom caps conn moreFrames moreBytes len = false := by
  by_contra hmore
  apply Bool.eq_false_iff.mp hroom
  simp only [inboundRoom, fits, Bool.not_eq_false, Bool.and_eq_true, decide_eq_true_eq] at hmore ⊢
  omega

theorem Conn.Tight.mono {caps : QueueCaps} {bytes moreFrames moreBytes : ℕ}
    (htight : conn.Tight caps frames bytes) (hframes : frames ≤ moreFrames)
    (hbytes : bytes ≤ moreBytes) : conn.Tight caps moreFrames moreBytes :=
  fun frame hparked ↦ inboundRoom_mono (htight frame hparked) hframes hbytes

theorem Conn.Tight.same {caps : QueueCaps} {bytes : ℕ} (htight : conn.Tight caps frames bytes)
    (hsame : SameQueues conn next) : next.Tight caps frames bytes := by
  intro frame hparked
  rw [hsame.parked] at hparked
  have hroom := htight frame hparked
  unfold inboundRoom at hroom ⊢
  rw [hsame.inbound, hsame.inboundBytes]
  exact hroom

theorem Conn.tight_of_none {caps : QueueCaps} {bytes : ℕ} (hparked : conn.parked = none) :
    conn.Tight caps frames bytes := by
  intro frame hsome
  rw [hparked] at hsome
  exact absurd hsome.symm (Option.some_ne_none _)

/-- A record is replaced and the host is no emptier. -/
theorem Tight.put {before after : State} (htight : Tight before)
    (hconns : after.conns = before.conns.insert id next)
    (hcaps : after.inboundCaps = before.inboundCaps)
    (hframes : before.inboundFrames ≤ after.inboundFrames)
    (hbytes : before.inboundBytes ≤ after.inboundBytes)
    (hnext : next.Tight before.inboundCaps after.inboundFrames after.inboundBytes) :
    Tight after := by
  intro other found hfound
  rw [hcaps]
  rw [hconns, BTreeMap.get?_insert] at hfound
  split_ifs at hfound
  · rw [← Option.some.inj hfound]
    exact hnext
  · exact (htight other found hfound).mono hframes hbytes

/-- What every step keeps. -/
structure Safe (caps : QueueCaps × QueueCaps) (endpoint : Endpoint) : Prop where
  invariant : Invariant caps endpoint
  tight : Tight endpoint.state

/-! ### Quiet steps -/

variable {endpoint : Endpoint}

theorem Safe.quiet {tasks : Tasks} (hsafe : Safe caps endpoint)
    (hget : endpoint.state.conns.get? id = some conn) (hsame : SameQueues conn next)
    (hlife : Life next tasks (endpoint.history id) (closedNotices id endpoint.state.events)) :
    Safe caps ((endpoint.withState (endpoint.state.setConn id next)).setTasks id tasks) := by
  obtain ⟨hinv, htight⟩ := hsafe
  have hbefore := (hinv.lanes id).present conn hget
  have htotals := hinv.totals
  constructor
  · refine hinv.put hget rfl ?_ (Moved.same htotals hsame rfl rfl rfl rfl) ?_ hinv.live
    · exact ⟨fun other hne ↦ Function.update_of_ne hne .., fun _ _ ↦ rfl, fun _ _ ↦ rfl, rfl, rfl,
        rfl, rfl⟩
    · constructor
      · exact hbefore.queues.same hsame
      · show (endpoint.history id).offered = _
        rw [hsame.held]
        exact hbefore.ordered
      · show Life next (Function.update endpoint.tasks id tasks id) _ _
        rw [Function.update_self]
        exact hlife
  · exact htight.put rfl rfl le_rfl le_rfl ((htight id conn hget).same hsame)

theorem Safe.setConn (hsafe : Safe caps endpoint)
    (hget : endpoint.state.conns.get? id = some conn) (hsame : SameQueues conn next)
    (hlife : Life next (endpoint.tasks id) (endpoint.history id)
      (closedNotices id endpoint.state.events)) :
    Safe caps (endpoint.withState (endpoint.state.setConn id next)) := by
  have hquiet := hsafe.quiet hget hsame hlife
  unfold Endpoint.setTasks at hquiet
  rw [show (endpoint.withState (endpoint.state.setConn id next)).tasks = endpoint.tasks from rfl,
    Function.update_eq_self] at hquiet
  exact hquiet

theorem Safe.setTasks {tasks : Tasks} (hsafe : Safe caps endpoint)
    (hassigned : (endpoint.tasks id).stage ≠ .unassigned) (hnext : tasks.stage ≠ .unassigned)
    (hlife : ∀ conn, endpoint.state.conns.get? id = some conn →
      Life conn (endpoint.tasks id) (endpoint.history id) (closedNotices id endpoint.state.events) →
      Life conn tasks (endpoint.history id) (closedNotices id endpoint.state.events))
    (habsent : (endpoint.tasks id).stage ≠ .reading →
      (∀ answer, (endpoint.tasks id).stage ≠ .starting answer) →
      (endpoint.tasks id).reader.alive = false →
      tasks.stage ≠ .reading ∧ (∀ answer, tasks.stage ≠ .starting answer) ∧
        tasks.reader.alive = false) : Safe caps (endpoint.setTasks id tasks) := by
  obtain ⟨hinv, htight⟩ := hsafe
  have helse : Elsewhere id endpoint (endpoint.setTasks id tasks) :=
    ⟨fun other hne ↦ Function.update_of_ne hne .., fun _ _ ↦ rfl, fun _ _ ↦ rfl, rfl, rfl, rfl,
      rfl⟩
  have hself : (endpoint.setTasks id tasks).tasks id = tasks := Function.update_self ..
  refine ⟨⟨hinv.caps_eq, hinv.emits, hinv.next_pos, fun other ↦ ?_, hinv.totals, hinv.live⟩, htight⟩
  by_cases hother : other = id
  · subst hother
    have hlane := hinv.lanes other
    constructor
    · intro conn hconn
      obtain ⟨hqueues, hordered, hbefore⟩ := hlane.present conn hconn
      refine ⟨hqueues, hordered, ?_⟩
      rw [hself]
      exact hlife conn hconn hbefore
    · intro hnone
      rw [hself]
      cases hlane.absent hnone with
      | unassigned htasks =>
        rw [htasks] at hassigned
        exact absurd rfl hassigned
      | forgotten _ hreading hstarting hreader hordered hnotices hreturned =>
        obtain ⟨hafter, hlater, hidle⟩ := habsent hreading hstarting hreader
        exact .forgotten hnext hafter hlater hidle hordered hnotices hreturned
    · rw [hself]
      exact iff_of_false hnext (mt hlane.unassigned_iff.mpr hassigned)
  · exact (hinv.lanes other).elsewhere helse hother rfl

/-! ### Closes -/

theorem closedNotices_of_ne {other : ℕ} (hne : other ≠ id) (events : List ServerNotice)
    (reason : CloseReason) :
    closedNotices other (events ++ [.event (.closed id reason)]) = closedNotices other events := by
  rw [closedNotices_append, closedNotices_closed, if_neg (Ne.symm hne), Nat.add_zero]

/-- Nothing is published while the connection is open, its reader runs, or it was published. -/
theorem State.tryPublish_stays {state : State} (hget : state.conns.get? id = some conn)
    (hstays : conn.reason = none ∨ conn.readerActive = true ∨ conn.published = true) :
    state.tryPublish id = state := by
  rcases hstays with hopen | hactive | hpublished
  · simp only [State.tryPublish, hget, hopen]
  · simp only [State.tryPublish, hget, hactive, Bool.true_or, ite_true]
    split <;> rfl
  · simp only [State.tryPublish, hget, hpublished, Bool.or_true, ite_true]
    split <;> rfl

theorem State.tryPublish_publishes {state : State} {reason : CloseReason}
    (hget : state.conns.get? id = some conn) (hreason : conn.reason = some reason)
    (hactive : conn.readerActive = false) (hpublished : conn.published = false)
    (hphase : conn.phase ≠ .hello) (hemits : state.emitEvents = true) : state.tryPublish id =
      { state.setConn id { conn with heldFrames := !conn.drained, published := true } with
        events := state.events ++ [.event (.closed id reason)] } := by
  unfold State.tryPublish
  rw [hget]
  simp only [hreason, hactive, hpublished, hemits, hphase, Bool.or_self, Bool.false_eq_true, ite_false,
    ne_eq, not_false_eq_true, decide_true, Bool.and_self, ite_true]

/-- A recorded close is published when it can be. -/
theorem Safe.tryPublish (hsafe : Safe caps endpoint) (id : ℕ) :
    Safe caps (endpoint.withState (endpoint.state.tryPublish id)) := by
  obtain ⟨hinv, htight⟩ := hsafe
  by_cases hnone : endpoint.state.conns.get? id = none
  · unfold State.tryPublish
    rw [hnone]
    exact ⟨hinv, htight⟩
  obtain ⟨conn, hget⟩ := Option.ne_none_iff_exists'.mp hnone
  by_cases hstays : conn.reason = none ∨ conn.readerActive = true ∨ conn.published = true
  · rw [State.tryPublish_stays hget hstays]
    exact ⟨hinv, htight⟩
  rw [not_or, not_or, Bool.not_eq_true, Bool.not_eq_true] at hstays
  obtain ⟨hsome, hactive, hpublished⟩ := hstays
  obtain ⟨reason, hreason⟩ := Option.ne_none_iff_exists'.mp hsome
  obtain ⟨hqueues, hordered, hlife⟩ := (hinv.lanes id).present conn hget
  have hphase : conn.phase ≠ .hello := fun hhello ↦ hsome (hlife.hello_open hhello)
  rw [State.tryPublish_publishes hget hreason hactive hpublished hphase hinv.emits]
  have hsame : SameQueues conn { conn with heldFrames := !conn.drained, published := true } :=
    ⟨rfl, rfl, rfl, rfl, rfl⟩
  constructor
  · refine hinv.put hget rfl ⟨fun _ _ ↦ rfl, fun _ _ ↦ rfl, fun other hne ↦
      closedNotices_of_ne hne _ _, rfl, rfl, rfl, rfl⟩
      (Moved.same hinv.totals hsame rfl rfl rfl rfl) ⟨hqueues.same hsame, hordered, ?_⟩ hinv.live
    have hnotices := hlife.notices_eq
    rw [hpublished, if_neg (by decide)] at hnotices
    refine { hlife with
      published := fun _ ↦ ⟨by rw [hreason]; rfl, hactive⟩
      drained := fun _ hheld ↦ ?_
      reported := fun hreported ↦ ⟨rfl, (hlife.reported hreported).2⟩
      polled := fun _ ↦ rfl
      released := fun hreleased ↦ ⟨rfl, (hlife.released hreleased).2⟩
      notices_eq := ?_ }
    · have hempty : conn.drained = true := by
        rw [← Bool.not_not conn.drained]
        exact congrArg Bool.not hheld
      rw [Conn.drained, Bool.and_eq_true, List.isEmpty_iff] at hempty
      exact hempty.1
    · show closedNotices id (endpoint.state.events ++ [.event (.closed id reason)]) +
        (endpoint.history id).polled = if true then 1 else 0
      rw [closedNotices_append, closedNotices_closed, if_pos rfl, if_pos rfl]
      omega
  · exact htight.put rfl rfl le_rfl le_rfl ((htight id conn hget).same hsame)

/-- A smaller count is subtracted. -/
theorem checkedSub_of_le {left right : ℕ} (hle : right ≤ left) :
    checkedSub left right = some (left - right) := if_pos hle

/-- A record after its close is recorded. -/
def Conn.closedBy (conn : Conn) (reason : CloseReason) : Conn :=
  { conn with
    reason := some reason
    outbound := []
    outboundBytes := 0
    discarded := conn.discarded + conn.outbound.length }

/-- A record that is open when its close is recorded. -/
theorem Life.closedBy {tasks : Tasks} {history : History} {notices : ℕ}
    (hlife : Life conn tasks history notices) (hreading : tasks.stage ≠ .reading)
    (reason : CloseReason) : Life (conn.closedBy reason) tasks history notices :=
  { hlife with
    unaccepted := fun hphase ↦
      ⟨(hlife.unaccepted hphase).1, (hlife.unaccepted hphase).2.1, rfl, (hlife.unaccepted hphase).2.2.2⟩
    hello_open := fun hphase ↦ absurd (hlife.hello_iff.mp hphase) hreading
    silent := fun _ ↦ rfl
    published := fun hpublished ↦ ⟨rfl, (hlife.published hpublished).2⟩ }

theorem Queues.closedBy {inbound outbound : QueueCaps} (hqueues : Queues inbound outbound conn)
    (reason : CloseReason) : Queues inbound outbound (conn.closedBy reason) :=
  { hqueues with
    framed := fun _ hmem ↦ absurd hmem List.not_mem_nil
    outBytes := rfl
    outFrames_le := Nat.zero_le _
    outBytes_le := Nat.zero_le _ }

theorem State.recordClose_open {state : State} (reason : CloseReason)
    (hget : state.conns.get? id = some conn) (hopen : conn.reason = none) (htotals : Totals state) :
    state.recordClose id reason = some (true, ({ state.setConn id (conn.closedBy reason) with
        outboundFrames := state.outboundFrames - conn.outbound.length
        outboundBytes := state.outboundBytes - conn.outboundBytes } : State).tryPublish id) := by
  have hframes : conn.outbound.length ≤ state.outboundFrames := by
    rw [htotals.outFrames]
    exact state.conns.le_sum hget fun conn ↦ conn.outbound.length
  have hbytes : conn.outboundBytes ≤ state.outboundBytes := by
    rw [htotals.outBytes]
    exact state.conns.le_sum hget fun conn ↦ conn.outboundBytes
  have hself : (state.setConn id { conn with reason := some reason }).conns.get? id =
      some { conn with reason := some reason } := BTreeMap.get?_insert_self ..
  have hdiscard : (state.setConn id { conn with reason := some reason }).discardOutbound id =
      some { state.setConn id (conn.closedBy reason) with
        outboundFrames := state.outboundFrames - conn.outbound.length
        outboundBytes := state.outboundBytes - conn.outboundBytes } := by
    simp only [State.discardOutbound, hself]
    rw [show (state.setConn id { conn with reason := some reason }).outboundFrames =
      state.outboundFrames from rfl, show
      (state.setConn id { conn with reason := some reason }).outboundBytes =
        state.outboundBytes from rfl, checkedSub_of_le hframes, checkedSub_of_le hbytes]
    simp only [Option.bind_eq_bind, Option.bind_some, State.setConn, BTreeMap.insert_insert]
    rfl
  have hisOpen : conn.reason.isSome = false := by
    rw [hopen]
    rfl
  simp only [State.recordClose, hget, hisOpen, Bool.false_eq_true, ite_false, hdiscard,
    Option.bind_eq_bind, Option.bind_some]

theorem Safe.recordClose (hsafe : Safe caps endpoint) (reason : CloseReason)
    (hreading : (endpoint.tasks id).stage ≠ .reading) :
    ∃ state, endpoint.recordClose id reason = some (endpoint.withState state) ∧
      Safe caps (endpoint.withState state) := by
  unfold Endpoint.recordClose
  by_cases hnone : endpoint.state.conns.get? id = none
  · refine ⟨endpoint.state, ?_, hsafe⟩
    rw [State.recordClose, hnone]
    rfl
  obtain ⟨conn, hget⟩ := Option.ne_none_iff_exists'.mp hnone
  by_cases hclosed : conn.reason.isSome = true
  · refine ⟨endpoint.state, ?_, hsafe⟩
    rw [State.recordClose, hget]
    simp only [hclosed, ite_true, Option.map_some]
  · rw [Option.not_isSome_iff_eq_none] at hclosed
    have hinv := hsafe.invariant
    rw [State.recordClose_open reason hget hclosed hinv.totals, Option.map_some]
    refine ⟨_, rfl, ?_⟩
    obtain ⟨hqueues, hordered, hlife⟩ := (hinv.lanes id).present conn hget
    let discarded : State := { endpoint.state.setConn id (conn.closedBy reason) with
      outboundFrames := endpoint.state.outboundFrames - conn.outbound.length
      outboundBytes := endpoint.state.outboundBytes - conn.outboundBytes }
    have hframes : conn.outbound.length ≤ endpoint.state.outboundFrames := by
      rw [hinv.totals.outFrames]
      exact endpoint.state.conns.le_sum hget fun conn ↦ conn.outbound.length
    have hbytes : conn.outboundBytes ≤ endpoint.state.outboundBytes := by
      rw [hinv.totals.outBytes]
      exact endpoint.state.conns.le_sum hget fun conn ↦ conn.outboundBytes
    have hdiscarded : Safe caps (endpoint.withState discarded) := by
      constructor
      · refine hinv.put hget rfl ⟨fun _ _ ↦ rfl, fun _ _ ↦ rfl, fun _ _ ↦ rfl, rfl, rfl, rfl, rfl⟩
          ⟨rfl, rfl, Nat.sub_add_cancel hframes, Nat.sub_add_cancel hbytes, hinv.totals.inFrames_le,
            hinv.totals.inBytes_le, (Nat.sub_le _ _).trans hinv.totals.outFrames_le,
            (Nat.sub_le _ _).trans hinv.totals.outBytes_le⟩
          ⟨hqueues.closedBy reason, hordered, hlife.closedBy hreading reason⟩ hinv.live
      · have hnext : (conn.closedBy reason).Tight endpoint.state.inboundCaps
            endpoint.state.inboundFrames endpoint.state.inboundBytes := hsafe.tight id conn hget
        exact hsafe.tight.put rfl rfl le_rfl le_rfl hnext
    exact hdiscarded.tryPublish id

/-- A reader that no longer runs gives up its connection. -/
theorem Safe.readerFinished (hsafe : Safe caps endpoint)
    (hreader : (endpoint.tasks id).reader.alive = false)
    (hdeciding : (endpoint.tasks id).stage ≠ .deciding)
    (hstarting : ∀ answer, (endpoint.tasks id).stage ≠ .starting answer) :
    Safe caps (endpoint.withState (endpoint.state.readerFinished id)) := by
  unfold State.readerFinished
  cases hget : endpoint.state.conns.get? id with
  | none => exact hsafe
  | some conn =>
    have hlife := ((hsafe.invariant.lanes id).present conn hget).life
    have hidle : Safe caps (endpoint.withState
        (endpoint.state.setConn id { conn with readerActive := false })) := by
      refine hsafe.setConn hget ⟨rfl, rfl, rfl, rfl, rfl⟩ ?_
      exact { hlife with
        unaccepted := fun hphase ↦ ⟨(hlife.unaccepted hphase).1, (hlife.unaccepted hphase).2.1,
          (hlife.unaccepted hphase).2.2.1, rfl⟩
        answer := fun hstage ↦ absurd hstage hdeciding
        starting := fun answer hstage ↦ absurd hstage (hstarting answer)
        alive := fun halive ↦ absurd (hreader.symm.trans halive) Bool.false_ne_true
        published := fun hpublished ↦ ⟨(hlife.published hpublished).1, rfl⟩ }
    exact hidle.tryPublish id

/-! ### Records are forgotten -/

/-- The slots after one is given back. -/
theorem holders_returned {before after : Endpoint}
    (hnext : after.state.nextId = before.state.nextId)
    (hother : ∀ other, other ≠ id → after.history other = before.history other) (hpos : 0 < id)
    (hlt : id < before.state.nextId)
    (hbefore : (before.history id).polled + (before.history id).failed = 0)
    (hafter : (after.history id).polled + (after.history id).failed = 1) :
    (holders after).card + 1 = (holders before).card := by
  have hmem : id ∈ holders before := by
    rw [holders, Finset.mem_filter, Finset.mem_range]
    exact ⟨hlt, hpos, hbefore⟩
  have herase : holders after = (holders before).erase id := by
    ext other
    rw [Finset.mem_erase, holders, holders, Finset.mem_filter, Finset.mem_filter, hnext]
    by_cases hself : other = id
    · rw [hself, hafter]
      simp
    · rw [hother other hself]
      simp [hself]
  rw [herase]
  exact Finset.card_erase_add_one hmem

/-- A record without frames is removed. -/
theorem Invariant.drop {before after : Endpoint} (hinv : Invariant caps before)
    (hget : before.state.conns.get? id = some conn) (hinbound : conn.inbound = [])
    (houtbound : conn.outbound = []) (hstate : after.state = { before.state with
      conns := before.state.conns.erase id, events := after.state.events, live := after.state.live,
      refusedHandshakes := after.state.refusedHandshakes }) (helse : Elsewhere id before after)
    (hassigned : (after.tasks id).stage ≠ .unassigned)
    (habsent : Absent (after.tasks id) (after.history id) (closedNotices id after.state.events))
    (hlive : after.state.live = after.handshakes + (holders after).card) :
    Invariant caps after := by
  have hbefore := (hinv.lanes id).present conn hget
  have hconns : after.state.conns = before.state.conns.erase id := by rw [hstate]
  constructor
  · rw [helse.inboundCaps, helse.outboundCaps]
    exact hinv.caps_eq
  · rw [helse.emits]
    exact hinv.emits
  · rw [helse.nextId]
    exact hinv.next_pos
  · intro other
    by_cases hother : other = id
    · subst hother
      constructor
      · intro found hfound
        rw [hconns, BTreeMap.get?_erase, if_pos rfl] at hfound
        exact absurd hfound.symm (Option.some_ne_none _)
      · exact fun _ ↦ habsent
      · have hid := mt (hinv.lanes other).unassigned_iff.mpr hbefore.life.assigned
        rw [helse.nextId]
        exact iff_of_false hassigned hid
    · apply (hinv.lanes other).elsewhere helse hother
      rw [hconns, BTreeMap.get?_erase, if_neg hother]
  · have hinBytes : conn.inboundBytes = 0 := by
      rw [hbefore.queues.inBytes, hinbound]
      rfl
    have houtBytes : conn.outboundBytes = 0 := by
      rw [hbefore.queues.outBytes, houtbound]
      rfl
    have hsumInFrames := before.state.conns.sum_erase hget fun conn ↦ conn.inbound.length
    have hsumInBytes := before.state.conns.sum_erase hget fun conn ↦ conn.inboundBytes
    have hsumOutFrames := before.state.conns.sum_erase hget fun conn ↦ conn.outbound.length
    have hsumOutBytes := before.state.conns.sum_erase hget fun conn ↦ conn.outboundBytes
    rw [hinbound, List.length_nil] at hsumInFrames
    rw [houtbound, List.length_nil] at hsumOutFrames
    have htotals := hinv.totals
    rw [hstate]
    constructor
    · show before.state.inboundFrames = (before.state.conns.erase id).sum _
      rw [htotals.inFrames]
      omega
    · show before.state.inboundBytes = (before.state.conns.erase id).sum _
      rw [htotals.inBytes]
      omega
    · show before.state.outboundFrames = (before.state.conns.erase id).sum _
      rw [htotals.outFrames]
      omega
    · show before.state.outboundBytes = (before.state.conns.erase id).sum _
      rw [htotals.outBytes]
      omega
    · exact htotals.inFrames_le
    · exact htotals.inBytes_le
    · exact htotals.outFrames_le
    · exact htotals.outBytes_le
  · exact hlive

theorem Tight.drop {before after : State} (htight : Tight before)
    (hconns : after.conns = before.conns.erase id) (hcaps : after.inboundCaps = before.inboundCaps)
    (hframes : after.inboundFrames = before.inboundFrames)
    (hbytes : after.inboundBytes = before.inboundBytes) : Tight after := by
  intro other found hfound
  rw [hconns, BTreeMap.get?_erase] at hfound
  split_ifs at hfound
  rw [hcaps, hframes, hbytes]
  exact htight other found hfound

/-- A connection whose close was polled and whose frames were received is forgotten. -/
theorem Safe.forget (hsafe : Safe caps endpoint) (hget : endpoint.state.conns.get? id = some conn)
    (hpublished : conn.published = true) (hpolled : conn.eventPolled = true)
    (hinbound : conn.inbound = []) : Safe caps (endpoint.withState
      { endpoint.state with conns := endpoint.state.conns.erase id }) := by
  have hinv := hsafe.invariant
  obtain ⟨-, hordered, hlife⟩ := (hinv.lanes id).present conn hget
  have hreturned := hlife.polled_iff.mp hpolled
  have hnotices := hlife.notices_eq
  rw [hpublished, if_pos rfl, hreturned] at hnotices
  constructor
  · refine hinv.drop hget hinbound (hlife.silent (hlife.published hpublished).1) rfl
      ⟨fun _ _ ↦ rfl, fun _ _ ↦ rfl, fun _ _ ↦ rfl, rfl, rfl, rfl, rfl⟩ hlife.assigned ?_ hinv.live
    apply Absent.forgotten hlife.assigned (hlife.not_reading hpublished)
      (hlife.not_starting hpublished) (hlife.not_alive hpublished)
    · rw [Ordered, Conn.held, hinbound, hlife.parked_none hpublished] at hordered
      show (endpoint.history id).offered = (endpoint.history id).received
      rw [hordered]
      exact List.append_nil _
    · show closedNotices id endpoint.state.events = 0
      omega
    · show (endpoint.history id).polled + (endpoint.history id).failed = 1
      rw [hreturned, hlife.failed]
  · exact hsafe.tight.drop rfl rfl rfl rfl

/-- The same for a connection whose application close may have to be sent first. -/
theorem Safe.release (hsafe : Safe caps endpoint)
    (hget : endpoint.state.conns.get? id = some conn) (hpublished : conn.published = true)
    (hpolled : conn.eventPolled = true) (hinbound : conn.inbound = []) :
    Safe caps (endpoint.withState (endpoint.state.release id)) := by
  unfold State.release
  rw [hget]
  simp only
  split_ifs with hclose
  · exact hsafe.forget hget hpublished hpolled hinbound
  · refine hsafe.setConn hget ⟨rfl, rfl, rfl, rfl, rfl⟩ ?_
    have hlife := ((hsafe.invariant.lanes id).present conn hget).life
    exact { hlife with released := fun _ ↦ ⟨hpublished, hpolled, hinbound⟩ }

/-! ### Notices -/

theorem closedNotices_cons (id : ℕ) (notice : ServerNotice) (rest : List ServerNotice) :
    closedNotices id (notice :: rest) = closedNotices id [notice] + closedNotices id rest :=
  closedNotices_append id [notice] rest

theorem Safe.setEvents {events : List ServerNotice} (hsafe : Safe caps endpoint)
    (hnotices : ∀ id, closedNotices id events = closedNotices id endpoint.state.events) :
    Safe caps (endpoint.withState { endpoint.state with events := events }) := by
  obtain ⟨hinv, htight⟩ := hsafe
  refine ⟨⟨hinv.caps_eq, hinv.emits, hinv.next_pos, fun id ↦ ?_, ?_, hinv.live⟩, htight⟩
  · obtain ⟨hpresent, habsent, hunassigned⟩ := hinv.lanes id
    constructor
    · intro conn hconn
      obtain ⟨hqueues, hordered, hlife⟩ := hpresent conn hconn
      refine ⟨hqueues, hordered, ?_⟩
      show Life conn _ _ (closedNotices id events)
      rw [hnotices id]
      exact hlife
    · intro hnone
      show Absent _ _ (closedNotices id events)
      rw [hnotices id]
      exact habsent hnone
    · exact hunassigned
  · obtain ⟨hinFrames, hinBytes, houtFrames, houtBytes, hinFramesLe, hinBytesLe, houtFramesLe,
      houtBytesLe⟩ := hinv.totals
    exact ⟨hinFrames, hinBytes, houtFrames, houtBytes, hinFramesLe, hinBytesLe, houtFramesLe,
      houtBytesLe⟩

theorem Safe.polledClosed {reason : CloseReason} {rest : List ServerNotice}
    (hsafe : Safe caps endpoint)
    (hevents : endpoint.state.events = .event (.closed id reason) :: rest) :
    Safe caps ((endpoint.withState
      (({ endpoint.state with events := rest } : State).polledClosed id)).polled
        (some (.event (.closed id reason)))) := by
  have hinv := hsafe.invariant
  have hlane := hinv.lanes id
  have hnotice : closedNotices id endpoint.state.events = 1 + closedNotices id rest := by
    rw [hevents, closedNotices_cons, closedNotices_closed, if_pos rfl]
  cases hget : endpoint.state.conns.get? id with
  | none =>
    cases hlane.absent hget with
    | unassigned _ _ hnotices => omega
    | forgotten _ _ _ _ _ hnotices => omega
  | some conn =>
    obtain ⟨hqueues, hordered, hlife⟩ := hlane.present conn hget
    have hsum := hlife.notices_eq
    have hpublished : conn.published = true := by
      by_contra hpublished
      rw [if_neg hpublished] at hsum
      omega
    rw [hpublished, if_pos rfl] at hsum
    let next : Conn := { conn with eventPolled := true }
    let middle : Endpoint := (endpoint.withState { endpoint.state.setConn id next with
      events := rest, live := endpoint.state.live - 1 }).setHistory id
        { endpoint.history id with polled := (endpoint.history id).polled + 1 }
    have hsame : SameQueues conn next := ⟨rfl, rfl, rfl, rfl, rfl⟩
    have hhistory : middle.history id =
        { endpoint.history id with polled := (endpoint.history id).polled + 1 } :=
      Function.update_self ..
    have hnext : Life next (endpoint.tasks id) (middle.history id) (closedNotices id rest) := by
      rw [hhistory]
      exact { hlife with
        polled := fun _ ↦ hpublished
        released := fun hreleased ↦ ⟨hpublished, rfl, (hlife.released hreleased).2.2⟩
        notices_eq := by
          show closedNotices id rest + ((endpoint.history id).polled + 1) =
            if conn.published then 1 else 0
          rw [hpublished, if_pos rfl]
          omega
        polled_iff := by
          show true = true ↔ (endpoint.history id).polled + 1 = 1
          simp
          omega }
    have hpolled : Safe caps middle := by
      constructor
      · refine hinv.put hget rfl ⟨fun _ _ ↦ rfl, fun other hne ↦ Function.update_of_ne hne ..,
          fun other hne ↦ ?_, rfl, rfl, rfl, rfl⟩ (Moved.same hinv.totals hsame rfl rfl rfl rfl)
          ⟨hqueues.same hsame, ?_, hnext⟩ ?_
        · rw [hevents, closedNotices_cons, closedNotices_closed, if_neg (Ne.symm hne), Nat.zero_add]
          rfl
        · rw [hhistory]
          exact hordered
        · have hid : ¬(endpoint.state.nextId ≤ id ∨ id = 0) :=
            mt hlane.unassigned_iff.mpr hlife.assigned
          have hcard : (holders middle).card + 1 = (holders endpoint).card := by
            refine holders_returned rfl (fun other hne ↦ Function.update_of_ne hne ..) ?_ ?_ ?_ ?_
            · omega
            · omega
            · rw [hlife.failed]
              omega
            · rw [hhistory]
              show (endpoint.history id).polled + 1 + (endpoint.history id).failed = 1
              rw [hlife.failed]
              omega
          have hlive := hinv.live
          show endpoint.state.live - 1 = endpoint.handshakes + (holders middle).card
          omega
      · exact hsafe.tight.put rfl rfl le_rfl le_rfl ((hsafe.tight id conn hget).same hsame)
    have hfound : middle.state.conns.get? id = some next := BTreeMap.get?_insert_self ..
    have hshape : ({ endpoint.state with events := rest } : State).polledClosed id =
        if (if conn.heldFrames then conn.closedReported else true) then middle.state.release id
        else middle.state := by
      unfold State.polledClosed
      rw [hget]
      rfl
    have hempty : (if conn.heldFrames then conn.closedReported else true) = true →
        conn.inbound = [] := by
      intro hdone
      by_cases hheld : conn.heldFrames = true
      · rw [if_pos hheld] at hdone
        exact (hlife.reported hdone).2
      · exact hlife.drained hpublished (Bool.eq_false_iff.mpr hheld)
    rw [hshape]
    by_cases hdone : (if conn.heldFrames then conn.closedReported else true) = true
    · rw [if_pos hdone]
      exact hpolled.release hfound hpublished rfl (hempty hdone)
    · rw [if_neg hdone]
      exact hpolled

/-! ### New connections -/

theorem Life.connected (framing : Framing) :
    Life { Conn.new .hello with framing := framing } ⟨.reading, .idle, .idle⟩ .new 0 := by
  constructor <;> simp [Conn.new, History.new, Reader.alive]

/-- The slots after a connection gets its record. -/
theorem holders_connected (framing : Framing) (hpos : 0 < endpoint.state.nextId)
    (hhistory : endpoint.history endpoint.state.nextId = .new) :
    (holders (endpoint.connected framing)).card = (holders endpoint).card + 1 := by
  have hinsert : holders (endpoint.connected framing) =
      insert endpoint.state.nextId (holders endpoint) := by
    ext other
    rw [Finset.mem_insert, holders, holders, Finset.mem_filter, Finset.mem_filter, Finset.mem_range,
      Finset.mem_range]
    show (other < endpoint.state.nextId + 1 ∧ 0 < other ∧
      (endpoint.history other).polled + (endpoint.history other).failed = 0) ↔ _
    by_cases hself : other = endpoint.state.nextId
    · rw [hself, hhistory]
      simp [History.new, hpos]
    · have hlt : other < endpoint.state.nextId + 1 ↔ other < endpoint.state.nextId := by omega
      simp [hself, hlt]
  rw [hinsert]
  apply Finset.card_insert_of_notMem
  simp [holders]

/-- A connection gets its record. -/
theorem Safe.connected (framing : Framing) (hsafe : Safe caps endpoint)
    (hhandshakes : 0 < endpoint.handshakes) : Safe caps (endpoint.connected framing) := by
  obtain ⟨hinv, htight⟩ := hsafe
  have hlane := hinv.lanes endpoint.state.nextId
  have hunassigned := hlane.unassigned_iff.mpr (.inl le_rfl)
  have hget : endpoint.state.conns.get? endpoint.state.nextId = none := by
    by_contra hsome
    obtain ⟨conn, hconn⟩ := Option.ne_none_iff_exists'.mp hsome
    exact (hlane.present conn hconn).life.assigned hunassigned
  have hfresh : endpoint.history endpoint.state.nextId = .new ∧
      closedNotices endpoint.state.nextId endpoint.state.events = 0 := by
    cases hlane.absent hget with
    | unassigned _ hhistory hnotices => exact ⟨hhistory, hnotices⟩
    | forgotten hassigned => exact absurd hunassigned hassigned
  have htasks : (endpoint.connected framing).tasks endpoint.state.nextId =
      ⟨.reading, .idle, .idle⟩ := Function.update_self ..
  have hconns : (endpoint.connected framing).state.conns = endpoint.state.conns.insert
      endpoint.state.nextId { Conn.new .hello with framing := framing } := rfl
  constructor
  · refine ⟨hinv.caps_eq, hinv.emits, Nat.succ_pos _, fun other ↦ ?_, ?_, ?_⟩
    · by_cases hother : other = endpoint.state.nextId
      · subst hother
        constructor
        · intro found hfound
          rw [hconns, BTreeMap.get?_insert_self, Option.some.injEq] at hfound
          rw [← hfound]
          constructor
          · exact ⟨rfl, Nat.zero_le _, Nat.zero_le _, fun _ hmem ↦ absurd hmem List.not_mem_nil, rfl,
              Nat.zero_le _, Nat.zero_le _⟩
          · show (endpoint.history endpoint.state.nextId).offered = _
            show _ = (endpoint.history endpoint.state.nextId).received ++ _
            rw [hfresh.1]
            rfl
          · rw [htasks]
            show Life _ _ (endpoint.history endpoint.state.nextId)
              (closedNotices endpoint.state.nextId endpoint.state.events)
            rw [hfresh.1, hfresh.2]
            exact .connected framing
        · intro hnone
          rw [hconns, BTreeMap.get?_insert_self] at hnone
          exact absurd hnone (Option.some_ne_none _)
        · rw [htasks]
          show _ ↔ endpoint.state.nextId + 1 ≤ endpoint.state.nextId ∨ endpoint.state.nextId = 0
          have hpos := hinv.next_pos
          constructor
          · intro hreading
            exact absurd hreading (by decide)
          · omega
      · have hbefore := hinv.lanes other
        have htasksOther : (endpoint.connected framing).tasks other = endpoint.tasks other :=
          Function.update_of_ne hother ..
        have hgetOther : (endpoint.connected framing).state.conns.get? other =
            endpoint.state.conns.get? other := by
          rw [hconns, BTreeMap.get?_insert_of_ne _ hother]
        constructor
        · intro conn hconn
          rw [hgetOther] at hconn
          obtain ⟨hqueues, hordered, hlife⟩ := hbefore.present conn hconn
          refine ⟨hqueues, hordered, ?_⟩
          rw [htasksOther]
          exact hlife
        · intro hnone
          rw [hgetOther] at hnone
          rw [htasksOther]
          exact hbefore.absent hnone
        · rw [htasksOther, hbefore.unassigned_iff]
          show _ ↔ endpoint.state.nextId + 1 ≤ other ∨ other = 0
          omega
    · obtain ⟨hinFrames, hinBytes, houtFrames, houtBytes, hinFramesLe, hinBytesLe, houtFramesLe,
        houtBytesLe⟩ := hinv.totals
      refine ⟨?_, ?_, ?_, ?_, hinFramesLe, hinBytesLe, houtFramesLe, houtBytesLe⟩
      · rw [hconns, BTreeMap.sum_insert_of_fresh _ hget]
        exact hinFrames
      · rw [hconns, BTreeMap.sum_insert_of_fresh _ hget]
        exact hinBytes
      · rw [hconns, BTreeMap.sum_insert_of_fresh _ hget]
        exact houtFrames
      · rw [hconns, BTreeMap.sum_insert_of_fresh _ hget]
        exact houtBytes
    · rw [holders_connected framing hinv.next_pos hfresh.1]
      show endpoint.state.live = endpoint.handshakes - 1 + ((holders endpoint).card + 1)
      have hlive := hinv.live
      omega
  · exact htight.put hconns rfl le_rfl le_rfl (Conn.tight_of_none rfl)

end Crpg.Quic
