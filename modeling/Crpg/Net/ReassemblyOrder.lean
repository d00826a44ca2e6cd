import Crpg.Net.ReassemblyAccounting

/-!
# What the pool delivers is in order

`crpg-net/src/reassembly.rs`. Whatever is offered to a pool, duplicated, reordered, dropped or cut
short by a new transfer, the updates popped for one receiver are a sequence a strict consumer
accepts. `Consumer` is that consumer: it expects one event sequence, takes only the delta that
carries it, and takes a snapshot only when its cursor has not fallen behind.

The invariant `Receiver.Ordered` says where a receiver stands relative to its consumer: feeding it
the queue would leave it expecting exactly the receiver's next sequence, and a transfer in flight
never has a cursor below what has been passed. Gating deltas by that cursor is what makes the
cutover safe: nothing beyond it is queued before its snapshot.
-/

set_option autoImplicit false

namespace Crpg.Net

open Crpg.Core Crpg.Lib

/-! ### The strict consumer -/

/-- A consumer of updates: the event sequence it expects, and whether it still waits for a first
snapshot. -/
structure Consumer where
  expected : ℕ
  awaiting : Bool
deriving DecidableEq

namespace Consumer

/-- The consumer of a receiver added in some mode. -/
def start : GateMode → Consumer
  | .live => ⟨1, false⟩
  | .awaitSnapshot => ⟨1, true⟩

/-- A snapshot is accepted when its cursor is not below the last delta applied, and the delta after
its cursor is expected next. A delta is accepted when it is the expected one. -/
def accept (consumer : Consumer) : ReplicaUpdate → Option Consumer
  | .snapshot publication =>
    if consumer.expected ≤ publication.cursor + 1 then some ⟨publication.cursor + 1, false⟩
    else none
  | .delta gated =>
    if consumer.awaiting = false ∧ gated.eventSeq = consumer.expected then
      some ⟨consumer.expected + 1, false⟩
    else none

/-- An accepted update never lowers the expected sequence, and a delta lies below the new one. -/
theorem accept_spec {consumer next : Consumer} {update : ReplicaUpdate}
    (haccept : consumer.accept update = some next) :
    consumer.expected ≤ next.expected ∧ next.awaiting = false ∧
      ∀ gated, update = .delta gated → gated.eventSeq < next.expected := by
  unfold accept at haccept
  split at haccept
  · split_ifs at haccept with hcursor
    rw [Option.some.injEq] at haccept
    subst haccept
    exact ⟨hcursor, rfl, fun gated h ↦ ReplicaUpdate.noConfusion h⟩
  · next gated =>
    split_ifs at haccept with hnext
    rw [Option.some.injEq] at haccept
    subst haccept
    refine ⟨Nat.le_succ _, rfl, fun other h ↦ ?_⟩
    rw [ReplicaUpdate.delta.injEq] at h
    exact h ▸ Nat.lt_succ_of_le (le_of_eq hnext.2)

/-- Along accepted updates the expected sequence does not fall, and every delta fed lies below the
last one. -/
theorem run_accept_spec {consumer last : Consumer} {updates : List ReplicaUpdate}
    (hfeed : run accept consumer updates = some last) : consumer.expected ≤ last.expected ∧
      ∀ gated, .delta gated ∈ updates → gated.eventSeq < last.expected := by
  induction updates generalizing consumer with
  | nil =>
    rw [run_nil, Option.some.injEq] at hfeed
    exact ⟨le_of_eq (congrArg _ hfeed), fun gated hmem ↦ by simp at hmem⟩
  | cons update rest ih =>
    obtain ⟨next, hnext, hrest⟩ := run_cons_eq_some.mp hfeed
    obtain ⟨hgrows, -, hbelow⟩ := accept_spec hnext
    obtain ⟨hlast, hlater⟩ := ih hrest
    refine ⟨le_trans hgrows hlast, fun gated hmem ↦ ?_⟩
    rcases List.mem_cons.mp hmem with rfl | hmem
    · exact lt_of_lt_of_le (hbelow gated rfl) hlast
    · exact hlater gated hmem

end Consumer

/-! ### Where a receiver stands -/

/-- A header that passes its checks has a cursor within the event sequences. -/
theorem BeginTransfer.cursor_le_of_validate {begin : BeginTransfer}
    (hvalid : begin.validate = .ok ()) : begin.cursor ≤ seqLast := by
  unfold BeginTransfer.validate at hvalid
  split at hvalid
  · cases hvalid
  next hcursor => exact not_lt.mp hcursor

/-- A receiver relative to the consumer of what was popped: the queue would bring the consumer to
the receiver's next sequence, past its first snapshot when the receiver is live; the cursor of a
transfer in flight covers what has been passed; held deltas sit under their own sequence. -/
structure Receiver.Ordered (consumer : Consumer) (receiver : Receiver) : Prop where
  queue : ∃ awaiting, run Consumer.accept consumer receiver.queued =
    some ⟨receiver.nextEventSeq, awaiting⟩ ∧ (receiver.mode = .live → awaiting = false)
  inFlight : ∀ inFlight, receiver.inFlight = some inFlight →
    receiver.nextEventSeq ≤ inFlight.header.cursor + 1 ∧ inFlight.header.cursor ≤ seqLast
  held : ∀ seq delta, receiver.held.get? seq = some delta → delta.gated.eventSeq = seq

section Focus

variable {consumer : Consumer} {focus : Focus}

section

variable (hordered : focus.receiver.Ordered consumer)
include hordered

theorem Receiver.Ordered.discard (inFlight : InFlightTransfer) (through : ℕ) :
    (focus.discard inFlight through).receiver.Ordered consumer :=
  ⟨hordered.queue, fun _ h ↦ (Option.some_ne_none _ h.symm).elim, hordered.held⟩

theorem Receiver.Ordered.await (resync : Option ResyncReason) :
    (focus.await resync).receiver.Ordered consumer := by
  obtain ⟨awaiting, hqueue, -⟩ := hordered.queue
  exact ⟨⟨awaiting, hqueue, fun h ↦ GateMode.noConfusion h⟩, hordered.inFlight, hordered.held⟩

theorem Receiver.Ordered.dropHeld : focus.dropHeld.receiver.Ordered consumer :=
  ⟨hordered.queue, hordered.inFlight, fun _ _ h ↦ (Option.some_ne_none _ h.symm).elim⟩

theorem Receiver.Ordered.discardInFlight : focus.discardInFlight.receiver.Ordered consumer := by
  unfold Focus.discardInFlight
  split
  · exact hordered.discard _ _
  · exact hordered

theorem Receiver.Ordered.failInFlight (reason : FailReason) :
    (focus.failInFlight reason).receiver.Ordered consumer := by
  have hfailed := hordered.discardInFlight.await (some reason.resyncReason)
  unfold Focus.failInFlight
  simp only
  split_ifs
  · exact hfailed.dropHeld
  · exact hfailed

/-- Queuing the expected delta of a live receiver, within the cursor of a transfer in flight, and
expecting the one after it keeps the receiver ordered. -/
theorem Receiver.Ordered.pass (hlive : focus.receiver.mode = .live)
    (hcovered : ∀ inFlight, focus.receiver.inFlight = some inFlight →
      focus.receiver.nextEventSeq ≤ inFlight.header.cursor) {gated : GatedDelta}
    (hseq : gated.eventSeq = focus.receiver.nextEventSeq) (len : ℕ) :
    Receiver.Ordered consumer
      { (focus.enqueue (.delta gated) len).receiver with nextEventSeq := gated.eventSeq + 1 } := by
  obtain ⟨awaiting, hqueue, hfirst⟩ := hordered.queue
  refine ⟨⟨false, ?_, fun _ ↦ rfl⟩, fun inFlight hinFlight ↦ ⟨?_, ?_⟩, hordered.held⟩
  · simp only [Focus.enqueue]
    rw [run_append, hqueue, Option.bind_some, hseq]
    simp [run, Consumer.accept, hfirst hlive, hseq]
  · have hcursor := hcovered inFlight hinFlight
    change gated.eventSeq + 1 ≤ _
    omega
  · exact (hordered.inFlight inFlight hinFlight).2

theorem Receiver.Ordered.release (hlive : focus.receiver.mode = .live)
    (hcovered : ∀ inFlight, focus.receiver.inFlight = some inFlight →
      focus.receiver.nextEventSeq ≤ inFlight.header.cursor) {held : HeldDelta}
    (hheld : focus.receiver.held.get? focus.receiver.nextEventSeq = some held) :
    (focus.release focus.receiver.nextEventSeq held).receiver.Ordered consumer := by
  have hseq := hordered.held _ held hheld
  have htaken : Receiver.Ordered consumer (Focus.forgetHeld { focus with
      receiver := { focus.receiver with
        held := focus.receiver.held.erase focus.receiver.nextEventSeq } } held).receiver := by
    refine ⟨hordered.queue, hordered.inFlight, fun seq other hother ↦ ?_⟩
    simp only [Focus.forgetHeld, BTreeMap.get?_erase] at hother
    split_ifs at hother
    exact hordered.held seq other hother
  have hpassed := htaken.pass hlive hcovered hseq held.encodedLen
  rw [hseq] at hpassed
  exact hpassed

end

theorem Receiver.Ordered.drain {gate : Receiver → ℕ → Bool} (inFlight : Option InFlightTransfer)
    (hgate : ∀ receiver seq, receiver.mode = .live → receiver.inFlight = inFlight →
      gate receiver seq → ∀ transfer, inFlight = some transfer → seq ≤ transfer.header.cursor)
    (fuel : ℕ) {focus : Focus} (hordered : focus.receiver.Ordered consumer)
    (hlive : focus.receiver.mode = .live) (hinFlight : focus.receiver.inFlight = inFlight) :
    (focus.drain gate fuel).2.receiver.Ordered consumer := by
  induction fuel generalizing focus with
  | zero => exact hordered
  | succ fuel ih =>
    unfold Focus.drain
    simp only
    split
    next hopen =>
      split
      next held hheld =>
        refine ih (hordered.release hlive ?_ hheld) hlive hinFlight
        intro transfer htransfer
        exact hgate _ _ hlive hinFlight hopen transfer (hinFlight ▸ htransfer)
      next => exact hordered
    · exact hordered

theorem Receiver.passes_spec {receiver : Receiver} {seq : ℕ} (hpasses : receiver.passes seq) :
    receiver.mode = .live ∧ ∀ inFlight, receiver.inFlight = some inFlight →
      seq ≤ inFlight.header.cursor := by
  unfold Receiver.passes at hpasses
  rw [Bool.and_eq_true, decide_eq_true_eq] at hpasses
  refine ⟨hpasses.1, fun inFlight hinFlight ↦ ?_⟩
  have hcursor := hpasses.2
  rw [hinFlight] at hcursor
  simpa using hcursor

/-- Clearing a stale queue touches only the queue, and leaves the consumer at or below the
receiver's next sequence. -/
theorem Receiver.Ordered.clearStaleQueue (hordered : focus.receiver.Ordered consumer) :
    focus.clearStaleQueue.receiver.inFlight = focus.receiver.inFlight ∧
      focus.clearStaleQueue.receiver.held = focus.receiver.held ∧
      ∃ last, run Consumer.accept consumer focus.clearStaleQueue.receiver.queued = some last ∧
        last.expected ≤ focus.receiver.nextEventSeq := by
  obtain ⟨awaiting, hqueue, -⟩ := hordered.queue
  unfold Focus.clearStaleQueue
  split
  · exact ⟨rfl, rfl, consumer, rfl, (Consumer.run_accept_spec hqueue).1⟩
  · exact ⟨rfl, rfl, _, hqueue, le_refl _⟩

theorem Focus.dropCovered_receiver (focus : Focus) (cursor : ℕ) :
    ∃ heldBytes, (focus.dropCovered cursor).receiver = { focus.receiver with
      heldBytes := heldBytes
      held := focus.receiver.held.filter fun seq _ ↦ !decide (seq ≤ cursor) } := by
  have hfold (covered : List (ℕ × HeldDelta)) (focus : Focus) :
      ∃ heldBytes, (covered.foldl (fun focus entry ↦ focus.forgetHeld entry.2) focus).receiver =
        { focus.receiver with heldBytes := heldBytes } := by
    induction covered generalizing focus with
    | nil => exact ⟨_, rfl⟩
    | cons entry rest ih =>
      obtain ⟨heldBytes, hrest⟩ := ih (focus.forgetHeld entry.2)
      exact ⟨heldBytes, hrest⟩
  obtain ⟨heldBytes, hforgotten⟩ :=
    hfold (focus.receiver.held.entries.filter fun entry ↦ entry.1 ≤ cursor) focus
  refine ⟨heldBytes, ?_⟩
  unfold Focus.dropCovered
  simp only [hforgotten]

section

variable (hordered : focus.receiver.Ordered consumer)
include hordered

/-- The cutover to a snapshot keeps the receiver ordered: whether or not the queue is cleared, the
consumer is at or below the cursor when it meets the snapshot. -/
theorem Receiver.Ordered.cutover {inFlight : InFlightTransfer}
    (hinFlight : focus.receiver.inFlight = some inFlight) (body : SnapshotBody) :
    (focus.cutover inFlight body).2.receiver.Ordered consumer := by
  obtain ⟨hnext, hcursor⟩ := hordered.inFlight inFlight hinFlight
  have hdiscarded := hordered.discard inFlight inFlight.header.transfer
  obtain ⟨hidle, hheld, last, hfeed, hlast⟩ := hdiscarded.clearStaleQueue
  obtain ⟨heldBytes, hkept⟩ :=
    ((focus.discard inFlight inFlight.header.transfer).clearStaleQueue).dropCovered_receiver
      inFlight.header.cursor
  have hsaturating : saturatingAdd u64Max inFlight.header.cursor 1 = inFlight.header.cursor + 1 := by
    unfold saturatingAdd u64Max seqLast at *
    omega
  have haccept : last.expected ≤ inFlight.header.cursor + 1 := le_trans hlast hnext
  unfold Focus.cutover
  simp only
  refine Receiver.Ordered.drain none (fun _ _ _ _ _ _ h ↦ nomatch h) _ ?_ rfl ?_
  · refine ⟨⟨false, ?_, fun _ ↦ rfl⟩, fun other hother ↦ ?_, fun seq held hget ↦ ?_⟩
    · simp only [Focus.enqueue, hkept, hsaturating]
      rw [run_append, hfeed, Option.bind_some]
      simp only [run, Consumer.accept, if_pos haccept, Option.bind_some]
    · simp only [Focus.enqueue, hkept, hidle] at hother
      cases hother
    · simp only [Focus.enqueue, hkept, hheld, BTreeMap.get?_filter,
        Option.filter_eq_some_iff] at hget
      exact hordered.held seq held hget.1
  · simp only [Focus.enqueue, hkept, hidle]
    rfl

theorem Receiver.Ordered.handleChunk (codec : Codec) (chunk : TransferChunk) :
    (focus.handleChunk codec chunk).2.receiver.Ordered consumer := by
  unfold Focus.handleChunk
  simp only
  split
  next => split <;> exact hordered
  next inFlight hinFlight =>
    split
    · split
      next => exact hordered.failInFlight .conflict
      next outcome assembly _ =>
        have hstored : Receiver.Ordered consumer { focus.receiver with
            inFlight := some { inFlight with assembly } } := by
          refine ⟨hordered.queue, fun stored hstored ↦ ?_, hordered.held⟩
          rw [Option.some.injEq] at hstored
          subst hstored
          exact hordered.inFlight inFlight hinFlight
        split
        · exact hstored
        · exact hstored
        · unfold Focus.publish
          split
          · exact hstored
          · split
            · exact Receiver.Ordered.await (Receiver.Ordered.discard hstored _ _) _
            · split
              · exact Receiver.Ordered.await (Receiver.Ordered.discard hstored _ _) _
              · exact Receiver.Ordered.cutover hstored rfl _
    · split <;> exact hordered

theorem Receiver.Ordered.handleBegin (limits : TransferLimits) (header : BeginTransfer)
    (nowMs : ℕ) : (focus.handleBegin limits header nowMs).2.receiver.Ordered consumer := by
  unfold Focus.handleBegin
  split
  next =>
    split_ifs
    · exact hordered
    · exact hordered.failInFlight .conflict
    · exact hordered
    · exact hordered
  next =>
    split
    · exact hordered
    · split
      · exact hordered
      next hbehind =>
        rw [not_or, not_lt] at hbehind
        split
        · exact hordered
        · split
          · exact hordered
          · unfold TransferAssembly.new
            cases hvalid : header.validate with
            | error defect => exact hordered
            | ok _ =>
              refine ⟨hordered.queue, fun inFlight hinFlight ↦ ?_, hordered.held⟩
              simp only [Option.some.injEq] at hinFlight
              subst hinFlight
              exact ⟨hbehind.1, BeginTransfer.cursor_le_of_validate hvalid⟩

theorem Receiver.Ordered.handleCancel (transfer : TransferId) :
    (focus.handleCancel transfer).2.receiver.Ordered consumer := by
  unfold Focus.handleCancel
  split
  · exact (hordered.discard _ _).await _
  · exact ⟨hordered.queue, hordered.inFlight, hordered.held⟩

theorem Receiver.Ordered.offerDelta (codec : Codec) (limits : TransferLimits) (bytes : List UInt8) :
    (focus.offerDelta codec limits bytes).2.receiver.Ordered consumer := by
  unfold Focus.offerDelta
  split
  next => exact hordered
  next gated _ =>
    simp only
    split
    · exact hordered
    · split
      · exact hordered
      · split
        next =>
          split
          · exact hordered
          · exact hordered.failInFlight .conflict
        next =>
          split
          · exact hordered.failInFlight .overflow
          · split
            next hpasses =>
              obtain ⟨hopen, hseq⟩ := hpasses
              obtain ⟨hlive, hcovered⟩ := Receiver.passes_spec hopen
              refine Receiver.Ordered.drain focus.receiver.inFlight ?_ _
                (hordered.pass hlive (fun transfer h ↦ hseq ▸ hcovered transfer h) hseq _) hlive rfl
              intro receiver seq _ hsame hgate transfer htransfer
              exact (Receiver.passes_spec hgate).2 transfer (hsame.trans htransfer)
            · refine ⟨hordered.queue, hordered.inFlight, fun seq held hget ↦ ?_⟩
              simp only [Focus.hold, BTreeMap.get?_insert] at hget
              split_ifs at hget with hseq
              · rw [Option.some.injEq] at hget
                subst hget
                exact hseq.symm
              · exact hordered.held seq held hget

theorem Receiver.Ordered.popUpdate {update : ReplicaUpdate} {next : Focus}
    (hpop : focus.popUpdate = (some update, next)) :
    ∃ fed, consumer.accept update = some fed ∧ next.receiver.Ordered fed ∧
      update ∈ focus.receiver.queued := by
  unfold Focus.popUpdate at hpop
  split at hpop
  · cases hpop
  next head queued hqueued =>
    simp only [Prod.mk.injEq, Option.some.injEq] at hpop
    obtain ⟨rfl, rfl⟩ := hpop
    obtain ⟨awaiting, hqueue, hfirst⟩ := hordered.queue
    rw [hqueued] at hqueue
    obtain ⟨fed, hfed, hrest⟩ := run_cons_eq_some.mp hqueue
    exact ⟨fed, hfed, ⟨⟨awaiting, hrest, hfirst⟩, hordered.inFlight, hordered.held⟩,
      by rw [hqueued]; exact List.mem_cons_self ..⟩

theorem Receiver.Ordered.rebind : focus.rebind.2.receiver.Ordered consumer :=
  (hordered.discardInFlight.dropHeld).await none

end

end Focus

/-! ### Runs of the pool -/

structure ReassemblyPool.KeepsOrder (before after : ReassemblyPool) : Prop where
  receiver : ∀ id moved, after.receivers.get? id = some moved →
    ∃ receiver, before.receivers.get? id = some receiver ∧
      ∀ consumer, receiver.Ordered consumer → moved.Ordered consumer
  counter : after.receiverCounter = before.receiverCounter

namespace ReassemblyPool

theorem KeepsOrder.refl (pool : ReassemblyPool) : KeepsOrder pool pool :=
  ⟨fun _ receiver h ↦ ⟨receiver, h, fun _ hordered ↦ hordered⟩, rfl⟩

theorem KeepsOrder.trans {first second third : ReassemblyPool} (hfirst : KeepsOrder first second)
    (hsecond : KeepsOrder second third) : KeepsOrder first third := by
  refine ⟨fun id moved hmoved ↦ ?_, hsecond.counter.trans hfirst.counter⟩
  obtain ⟨middle, hmiddle, hlast⟩ := hsecond.receiver id moved hmoved
  obtain ⟨receiver, hreceiver, hearly⟩ := hfirst.receiver id middle hmiddle
  exact ⟨receiver, hreceiver, fun consumer hordered ↦ hlast consumer (hearly consumer hordered)⟩

theorem keepsOrder_store {pool : ReassemblyPool} {id : ReceiverId} {receiver : Receiver}
    (hreceiver : pool.receivers.get? id = some receiver) {focus : Focus}
    (hfocus : ∀ consumer, receiver.Ordered consumer → focus.receiver.Ordered consumer) :
    KeepsOrder pool (pool.store id focus) := by
  refine ⟨fun other moved hmoved ↦ ?_, rfl⟩
  simp only [ReassemblyPool.store, BTreeMap.get?_insert] at hmoved
  split_ifs at hmoved with hother
  · rw [Option.some.injEq] at hmoved
    exact ⟨receiver, hother ▸ hreceiver, hmoved ▸ hfocus⟩
  · exact ⟨moved, hmoved, fun _ hordered ↦ hordered⟩

theorem keepsOrder_sweep (pool : ReassemblyPool) (nowMs : ℕ) :
    KeepsOrder pool (pool.sweep nowMs).2 := by
  unfold ReassemblyPool.sweep
  refine List.foldlRecOn (motive := fun (state : List (ReceiverId × TransferId) × ReassemblyPool) ↦
    KeepsOrder pool state.2) _ _
    ⟨fun _ receiver h ↦ ⟨receiver, h, fun _ hordered ↦ hordered⟩, rfl⟩ ?_
  intro state hstate id _
  unfold ReassemblyPool.sweepOne
  split
  · exact hstate
  next receiver hreceiver =>
    split
    · exact hstate
    · split
      · exact hstate.trans (keepsOrder_store hreceiver fun consumer hordered ↦
          (show (state.2.focus receiver).receiver.Ordered consumer from hordered).failInFlight .expired)
      · exact hstate

theorem keepsOrder_removeReceiver (pool : ReassemblyPool) (id : ReceiverId) :
    KeepsOrder pool (pool.removeReceiver id) := by
  unfold ReassemblyPool.removeReceiver
  split
  · exact KeepsOrder.refl pool
  · refine ⟨fun other moved hmoved ↦ ?_, rfl⟩
    rw [BTreeMap.get?_erase] at hmoved
    split_ifs at hmoved
    exact ⟨moved, hmoved, fun _ hordered ↦ hordered⟩

theorem keepsOrder_rebindReceiver (pool : ReassemblyPool) (id : ReceiverId) (nowMs : ℕ) :
    KeepsOrder pool (pool.rebindReceiver id nowMs).2 := by
  have hswept := keepsOrder_sweep pool (max nowMs pool.nowMs)
  unfold ReassemblyPool.rebindReceiver
  simp only
  split
  · exact hswept
  next receiver hreceiver =>
    exact hswept.trans (keepsOrder_store hreceiver fun consumer hordered ↦
      (show ((pool.sweep (max nowMs pool.nowMs)).2.focus receiver).receiver.Ordered consumer
        from hordered).rebind)

theorem keepsOrder_offerTransfer (pool : ReassemblyPool) (codec : Codec) (id : ReceiverId)
    (bytes : List UInt8) (nowMs : ℕ) :
    KeepsOrder pool (pool.offerTransfer codec id bytes nowMs).2 := by
  have hswept := keepsOrder_sweep pool (max nowMs pool.nowMs)
  unfold ReassemblyPool.offerTransfer
  simp only
  split
  · exact hswept
  next receiver hreceiver =>
    split
    · exact hswept
    next message _ =>
      split
      · exact hswept
      · split
        · exact hswept
        · refine hswept.trans (keepsOrder_store hreceiver fun consumer hordered ↦ ?_)
          have hfocus : ((pool.sweep (max nowMs pool.nowMs)).2.focus receiver).receiver.Ordered
            consumer := hordered
          cases message with
          | begin header => exact hfocus.handleBegin _ header _
          | chunk chunk => exact hfocus.handleChunk codec chunk
          | cancel _ transfer _ => exact hfocus.handleCancel transfer

theorem keepsOrder_offerDelta (pool : ReassemblyPool) (codec : Codec) (id : ReceiverId)
    (bytes : List UInt8) (nowMs : ℕ) :
    KeepsOrder pool (pool.offerDelta codec id bytes nowMs).2 := by
  have hswept := keepsOrder_sweep pool (max nowMs pool.nowMs)
  unfold ReassemblyPool.offerDelta
  simp only
  split
  · exact hswept
  next receiver hreceiver =>
    exact hswept.trans (keepsOrder_store hreceiver fun consumer hordered ↦
      (show ((pool.sweep (max nowMs pool.nowMs)).2.focus receiver).receiver.Ordered consumer
        from hordered).offerDelta codec _ bytes)

end ReassemblyPool

namespace PoolRun

def seen (run : PoolRun) (id : ReceiverId) : List ReplicaUpdate :=
  (run.popped.filter fun entry ↦ entry.1 = id).map Prod.snd

/-- The invariant of a run: the consumer of every receiver ever added has accepted what was popped
for it, and the receiver, while it is there, stands in order behind it. Ids are issued once. -/
structure Ordered (run : PoolRun) : Prop where
  consumers : ∀ id mode, (id, mode) ∈ run.added → ∃ consumer,
    Lib.run Consumer.accept (Consumer.start mode) (run.seen id) = some consumer ∧
      ∀ receiver, run.pool.receivers.get? id = some receiver → receiver.Ordered consumer
  added : ∀ id receiver, run.pool.receivers.get? id = some receiver →
    ∃ mode, (id, mode) ∈ run.added
  addedIds : ∀ id mode, (id, mode) ∈ run.added → id ≤ run.pool.receiverCounter
  poppedIds : ∀ id update, (id, update) ∈ run.popped → id ≤ run.pool.receiverCounter

theorem Ordered.keeps {run : PoolRun} (hrun : run.Ordered) {pool : ReassemblyPool}
    (hkeeps : run.pool.KeepsOrder pool) : Ordered { run with pool } := by
  refine ⟨fun id mode hadded ↦ ?_, fun id moved hmoved ↦ ?_, ?_, ?_⟩
  · obtain ⟨consumer, hfeed, hordered⟩ := hrun.consumers id mode hadded
    refine ⟨consumer, hfeed, fun moved hmoved ↦ ?_⟩
    obtain ⟨receiver, hreceiver, hmove⟩ := hkeeps.receiver id moved hmoved
    exact hmove consumer (hordered receiver hreceiver)
  · obtain ⟨receiver, hreceiver, -⟩ := hkeeps.receiver id moved hmoved
    exact hrun.added id receiver hreceiver
  · exact fun id mode hadded ↦ hkeeps.counter ▸ hrun.addedIds id mode hadded
  · exact fun id update hpopped ↦ hkeeps.counter ▸ hrun.poppedIds id update hpopped

theorem Ordered.addReceiver {run : PoolRun} (hrun : run.Ordered) (codec : Codec)
    (epoch : SessionEpoch) (wire : DeltaWire) (start : GateMode) :
    (run.step codec (.addReceiver epoch wire start)).Ordered := by
  simp only [step, ReassemblyPool.addReceiver]
  by_cases hfull : run.pool.limits.maxReceivers ≤ run.pool.receivers.size
  · rw [if_pos hfull]
    exact hrun
  · rw [if_neg hfull]
    by_cases hspent : run.pool.receiverCounter = u32Max
    · rw [if_pos hspent]
      exact hrun
    · rw [if_neg hspent]
      have hunseen : run.seen (run.pool.receiverCounter + 1) = [] := by
        unfold seen
        rw [List.map_eq_nil_iff, List.filter_eq_nil_iff]
        rintro ⟨id, update⟩ hentry
        have hid := hrun.poppedIds id update hentry
        simp only [decide_eq_true_eq]
        exact fun h ↦ absurd (h ▸ hid) (Nat.not_succ_le_self _)
      refine ⟨fun id mode hadded ↦ ?_, fun id receiver hreceiver ↦ ?_, fun id mode hadded ↦ ?_,
        fun id update hpopped ↦ Nat.le_succ_of_le (hrun.poppedIds id update hpopped)⟩
      · rcases List.mem_append.mp hadded with hold | hnew
        · have hid := hrun.addedIds id mode hold
          obtain ⟨consumer, hfeed, hordered⟩ := hrun.consumers id mode hold
          refine ⟨consumer, hfeed, fun receiver hreceiver ↦ hordered receiver ?_⟩
          rw [BTreeMap.get?_insert_of_ne _ (by rintro rfl; exact Nat.not_succ_le_self _ hid)]
            at hreceiver
          exact hreceiver
        · simp only [List.mem_singleton, Prod.mk.injEq] at hnew
          obtain ⟨rfl, rfl⟩ := hnew
          refine ⟨Consumer.start mode, ?_, fun receiver hreceiver ↦ ?_⟩
          · change Lib.run Consumer.accept _ (run.seen (run.pool.receiverCounter + 1)) = _
            rw [hunseen, run_nil]
          · rw [BTreeMap.get?_insert_self, Option.some.injEq] at hreceiver
            subst hreceiver
            refine ⟨?_, fun _ h ↦ (Option.some_ne_none _ h.symm).elim,
              fun _ _ h ↦ (Option.some_ne_none _ h.symm).elim⟩
            cases mode with
            | live => exact ⟨false, rfl, fun _ ↦ rfl⟩
            | awaitSnapshot => exact ⟨true, rfl, fun h ↦ GateMode.noConfusion h⟩
      · rw [BTreeMap.get?_insert] at hreceiver
        split_ifs at hreceiver with hid
        · exact ⟨start, List.mem_append_right _ (by rw [hid]; exact List.mem_singleton_self _)⟩
        · obtain ⟨mode, hadded⟩ := hrun.added id receiver hreceiver
          exact ⟨mode, List.mem_append_left _ hadded⟩
      · rcases List.mem_append.mp hadded with hold | hnew
        · exact Nat.le_succ_of_le (hrun.addedIds id mode hold)
        · simp only [List.mem_singleton, Prod.mk.injEq] at hnew
          exact le_of_eq hnew.1

theorem Ordered.popUpdate {run : PoolRun} (hrun : run.Ordered) (codec : Codec) (id : ReceiverId) :
    (run.step codec (.popUpdate id)).Ordered := by
  simp only [step, ReassemblyPool.popUpdate]
  cases hreceiver : run.pool.receivers.get? id with
  | none => exact hrun
  | some receiver =>
    simp only
    cases hpop : (run.pool.focus receiver).popUpdate with
    | mk update focus =>
      cases update with
      | none =>
        have hsame : focus = run.pool.focus receiver := by
          unfold Focus.popUpdate at hpop
          split at hpop
          · exact (Prod.mk.inj hpop).2.symm
          · cases hpop
        exact hrun.keeps (ReassemblyPool.keepsOrder_store hreceiver
          fun _ hordered ↦ hsame ▸ hordered)
      | some update =>
        have hseen (other : ReceiverId) : PoolRun.seen
            ⟨run.pool.store id focus, run.added, run.popped ++ [(id, update)]⟩ other =
              run.seen other ++ if id = other then [update] else [] := by
          unfold seen
          rw [List.filter_append, List.map_append]
          split_ifs with hother <;> simp [hother]
        refine ⟨fun other mode hadded ↦ ?_, fun other moved hmoved ↦ ?_,
          fun other mode hadded ↦ hrun.addedIds other mode hadded, fun other popped hpopped ↦ ?_⟩
        · obtain ⟨consumer, hfeed, hordered⟩ := hrun.consumers other mode hadded
          rw [hseen]
          by_cases hother : id = other
          · subst hother
            obtain ⟨fed, hfed, hnext, -⟩ := Receiver.Ordered.popUpdate
              (show (run.pool.focus receiver).receiver.Ordered consumer
                from hordered receiver hreceiver) hpop
            refine ⟨fed, ?_, fun moved hmoved ↦ ?_⟩
            · rw [if_pos rfl, run_append, hfeed, Option.bind_some, Lib.run, hfed]
              rfl
            · simp only [ReassemblyPool.store, BTreeMap.get?_insert_self,
                Option.some.injEq] at hmoved
              exact hmoved ▸ hnext
          · refine ⟨consumer, ?_, fun moved hmoved ↦ hordered moved ?_⟩
            · rw [if_neg hother, List.append_nil, hfeed]
            · simpa only [ReassemblyPool.store,
                BTreeMap.get?_insert_of_ne _ (Ne.symm hother)] using hmoved
        · simp only [ReassemblyPool.store, BTreeMap.get?_insert] at hmoved
          split_ifs at hmoved with hother
          · exact hother ▸ hrun.added id receiver hreceiver
          · exact hrun.added other moved hmoved
        · rcases List.mem_append.mp hpopped with hold | hnew
          · exact hrun.poppedIds other popped hold
          · simp only [List.mem_singleton, Prod.mk.injEq] at hnew
            obtain ⟨mode, hadded⟩ := hrun.added id receiver hreceiver
            exact hnew.1 ▸ hrun.addedIds id mode hadded

theorem Ordered.step {run : PoolRun} (hrun : run.Ordered) (codec : Codec) (op : PoolOp) :
    (run.step codec op).Ordered := by
  cases op with
  | addReceiver epoch wire start => exact hrun.addReceiver codec epoch wire start
  | removeReceiver id => exact hrun.keeps (ReassemblyPool.keepsOrder_removeReceiver _ id)
  | rebindReceiver id nowMs =>
    exact hrun.keeps (ReassemblyPool.keepsOrder_rebindReceiver _ id nowMs)
  | offerTransfer id bytes nowMs =>
    exact hrun.keeps (ReassemblyPool.keepsOrder_offerTransfer _ codec id bytes nowMs)
  | offerDelta id bytes nowMs =>
    exact hrun.keeps (ReassemblyPool.keepsOrder_offerDelta _ codec id bytes nowMs)
  | poll nowMs => exact hrun.keeps (ReassemblyPool.keepsOrder_sweep _ _)
  | popUpdate id => exact hrun.popUpdate codec id

theorem ordered_after (codec : Codec) {limits : TransferLimits} {pool : ReassemblyPool}
    (hnew : ReassemblyPool.new limits = .ok pool) (ops : List PoolOp) :
    (after codec pool ops).Ordered := by
  have hempty : pool.receivers = .empty := by
    unfold ReassemblyPool.new at hnew
    split at hnew
    · cases hnew
    · rw [Except.ok.injEq] at hnew
      rw [← hnew]
  refine List.foldlRecOn (motive := fun run : PoolRun ↦ run.Ordered) ops _ ⟨?_, ?_, ?_, ?_⟩
    fun _ hrun op _ ↦ hrun.step codec op
  · intro id mode hadded
    cases hadded
  · intro id receiver hreceiver
    simp only [start, hempty, BTreeMap.get?_empty] at hreceiver
    cases hreceiver
  · intro id mode hadded
    cases hadded
  · intro id update hpopped
    cases hpopped

/-- Deltas and transfers stay in order over every run. Assumes: a pool made from limits that pass
their own checks. After any calls, a strict consumer accepts what was popped for each receiver ever
added, and a delta popped while a transfer is in flight lies within that transfer's cursor. -/
theorem popped_in_order (codec : Codec) (limits : TransferLimits) (pool : ReassemblyPool)
    (hnew : ReassemblyPool.new limits = .ok pool) (ops : List PoolOp) :
    (∀ id mode, (id, mode) ∈ (after codec pool ops).added →
      (Lib.run Consumer.accept (Consumer.start mode) ((after codec pool ops).seen id)).isSome) ∧
    ∀ id receiver inFlight gated, (after codec pool ops).pool.receivers.get? id = some receiver →
      receiver.inFlight = some inFlight →
      ((after codec pool ops).pool.popUpdate id).1 = some (.delta gated) →
        gated.eventSeq ≤ inFlight.header.cursor := by
  have hordered := ordered_after codec hnew ops
  constructor
  · intro id mode hadded
    obtain ⟨consumer, hfeed, -⟩ := hordered.consumers id mode hadded
    rw [hfeed]
    rfl
  · intro id receiver inFlight gated hreceiver hinFlight hpopped
    obtain ⟨mode, hadded⟩ := hordered.added id receiver hreceiver
    obtain ⟨consumer, -, hstands⟩ := hordered.consumers id mode hadded
    have hreceiverOrdered := hstands receiver hreceiver
    simp only [ReassemblyPool.popUpdate, hreceiver] at hpopped
    cases hpop : ((after codec pool ops).pool.focus receiver).popUpdate with
    | mk update focus =>
      rw [hpop] at hpopped
      simp only at hpopped
      subst hpopped
      have hfocused : ((after codec pool ops).pool.focus receiver).receiver.Ordered consumer :=
        hreceiverOrdered
      obtain ⟨-, -, -, hmem⟩ := hfocused.popUpdate hpop
      obtain ⟨awaiting, hqueue, -⟩ := hreceiverOrdered.queue
      have hbelow := (Consumer.run_accept_spec hqueue).2 gated hmem
      have hcursor := (hreceiverOrdered.inFlight inFlight hinFlight).1
      change gated.eventSeq < receiver.nextEventSeq at hbelow
      omega

/-- A delta that arrives before the snapshot it follows is popped after it. -/
theorem popped_in_order_cutover : ∃ pool, ReassemblyPool.new TransferLimits.v1 = .ok pool ∧
      (after sampleCodec pool
        [.addReceiver sampleEpoch .v1 .awaitSnapshot, .offerDelta 1 [1, 0, 5, 5, 0] 10,
          .offerTransfer 1 sampleBeginFrame 11, .offerTransfer 1 sampleChunkFrame 12,
          .popUpdate 1, .popUpdate 1]).seen 1 =
        [.snapshot ⟨1, 9, 4, ⟨[], none⟩⟩, .delta (.v1 ⟨0, 5, 5, []⟩)] ∧
      ∀ id mode, (id, mode) ∈ (after sampleCodec pool
        [.addReceiver sampleEpoch .v1 .awaitSnapshot, .offerDelta 1 [1, 0, 5, 5, 0] 10,
          .offerTransfer 1 sampleBeginFrame 11, .offerTransfer 1 sampleChunkFrame 12,
          .popUpdate 1, .popUpdate 1]).added →
        (Lib.run Consumer.accept (Consumer.start mode) ((after sampleCodec pool
          [.addReceiver sampleEpoch .v1 .awaitSnapshot, .offerDelta 1 [1, 0, 5, 5, 0] 10,
            .offerTransfer 1 sampleBeginFrame 11, .offerTransfer 1 sampleChunkFrame 12,
            .popUpdate 1, .popUpdate 1]).seen id)).isSome := by
  refine ⟨⟨TransferLimits.v1, 0, .empty, 0, .zero, .zero⟩, rfl, by decide +kernel, ?_⟩
  exact (popped_in_order sampleCodec TransferLimits.v1 _ rfl _).1

end PoolRun

end Crpg.Net
