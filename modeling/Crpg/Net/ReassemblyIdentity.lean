import Crpg.Net.CodecTransfer
import Crpg.Net.ReassemblyMoves

/-!
# Transfer ids are used once, and nothing releasable waits

Every call on the pool moves the receivers that were there and adds at most one that is new
(`PoolRun.step_cases`). So over a run every receiver is sound, ids are retired for good, a retired
id is neither begun nor published again, and a receiver that failed goes live only by publishing a
transfer begun since.
-/

set_option autoImplicit false

namespace Crpg.Net

open Crpg.Core Crpg.Lib

/-! ### Sweeps -/

def Receiver.expired (nowMs : ℕ) (receiver : Receiver) : Option TransferId :=
  (receiver.inFlight.filter fun inFlight ↦ inFlight.deadlineMs ≤ nowMs).map
    fun inFlight ↦ inFlight.header.transfer

theorem Receiver.expired_eq_some {nowMs : ℕ} {receiver : Receiver} {transfer : TransferId} :
    receiver.expired nowMs = some transfer ↔ ∃ inFlight, receiver.inFlight = some inFlight ∧
      inFlight.deadlineMs ≤ nowMs ∧ inFlight.header.transfer = transfer := by
  unfold Receiver.expired
  rw [Option.map_eq_some_iff]
  constructor
  · intro hfound
    obtain ⟨inFlight, hfilter, htransfer⟩ := hfound
    rw [Option.filter_eq_some_iff, decide_eq_true_eq] at hfilter
    exact ⟨inFlight, hfilter.1, hfilter.2, htransfer⟩
  · intro hfound
    obtain ⟨inFlight, hinFlight, hdeadline, htransfer⟩ := hfound
    refine ⟨inFlight, ?_, htransfer⟩
    rw [Option.filter_eq_some_iff, decide_eq_true_eq]
    exact ⟨hinFlight, hdeadline⟩

/-- A receiver after a sweep: a transfer past its deadline retires and leaves it waiting. -/
structure Receiver.Swept (nowMs : ℕ) (before after : Receiver) : Prop where
  moves : Receiver.Moves none none before after
  waits : ∀ transfer, before.expired nowMs = some transfer →
    after.mode = .awaitSnapshot ∧ after.flying = none
  same : before.expired nowMs = none → after = before

namespace ReassemblyPool

variable {pool : ReassemblyPool} {codec : Codec} {id : ReceiverId} {nowMs : ℕ}
  {bytes : List UInt8}

theorem sweepOne_spec (nowMs : ℕ) (state : List (ReceiverId × TransferId) × ReassemblyPool)
    (id : ReceiverId) : (∀ other, other ≠ id →
      (sweepOne nowMs state id).2.receivers.get? other = state.2.receivers.get? other) ∧
    (∀ receiver, state.2.receivers.get? id = some receiver →
      ∃ swept, (sweepOne nowMs state id).2.receivers.get? id = some swept ∧
        receiver.Swept nowMs swept ∧ (sweepOne nowMs state id).1 =
          state.1 ++ (receiver.expired nowMs).toList.map fun transfer ↦ (id, transfer)) ∧
    (state.2.receivers.get? id = none → sweepOne nowMs state id = state) := by
  have hkept : ∀ receiver : Receiver, receiver.expired nowMs = none →
      receiver.Swept nowMs receiver := by
    intro receiver hnone
    refine ⟨.refl receiver, fun transfer hsome ↦ ?_, fun _ ↦ rfl⟩
    exact absurd (hnone.symm.trans hsome) (Option.some_ne_none _).symm
  unfold sweepOne
  cases hreceiver : state.2.receivers.get? id with
  | none =>
    refine ⟨fun _ _ ↦ rfl, fun receiver hsome ↦ ?_, fun _ ↦ rfl⟩
    exact absurd hsome (Option.some_ne_none _).symm
  | some receiver =>
    simp only
    cases hinFlight : receiver.inFlight with
    | none =>
      have hnone : receiver.expired nowMs = none := by
        unfold Receiver.expired
        rw [hinFlight]
        rfl
      refine ⟨fun _ _ ↦ rfl, fun found hfound ↦ ?_, fun hsome ↦ absurd hsome (by simp)⟩
      rw [← Option.some.inj hfound, hnone]
      exact ⟨receiver, hreceiver, hkept receiver hnone, (List.append_nil _).symm⟩
    | some inFlight =>
      simp only
      by_cases hdeadline : inFlight.deadlineMs ≤ nowMs
      · have hexpired : receiver.expired nowMs = some inFlight.header.transfer :=
          Receiver.expired_eq_some.mpr ⟨inFlight, hinFlight, hdeadline, rfl⟩
        rw [if_pos hdeadline]
        refine ⟨fun other hne ↦ BTreeMap.get?_insert_of_ne _ hne _, fun found hfound ↦ ?_,
          fun hsome ↦ absurd hsome (by simp)⟩
        rw [← Option.some.inj hfound, hexpired]
        refine ⟨_, BTreeMap.get?_insert_self .., ⟨?_, ?_, ?_⟩, rfl⟩
        · exact (state.2.focus receiver).moves_failInFlight .expired
        · exact fun _ _ ↦ (state.2.focus receiver).failInFlight_waits .expired
        · exact fun hnone ↦ absurd (hexpired.symm.trans hnone) (Option.some_ne_none _)
      · have hnone : receiver.expired nowMs = none := by
          rw [Option.eq_none_iff_forall_ne_some]
          intro transfer hsome
          obtain ⟨found, hfound, hle, -⟩ := Receiver.expired_eq_some.mp hsome
          rw [← Option.some.inj (hinFlight.symm.trans hfound)] at hle
          exact hdeadline hle
        rw [if_neg hdeadline]
        refine ⟨fun _ _ ↦ rfl, fun found hfound ↦ ?_, fun hsome ↦ absurd hsome (by simp)⟩
        rw [← Option.some.inj hfound, hnone]
        exact ⟨receiver, hreceiver, hkept receiver hnone, (List.append_nil _).symm⟩

theorem foldl_sweepOne (nowMs : ℕ) {ids : List ReceiverId} (hnodup : ids.Nodup)
    (state : List (ReceiverId × TransferId) × ReassemblyPool) (id : ReceiverId) :
    (id ∉ ids → (ids.foldl (sweepOne nowMs) state).2.receivers.get? id = state.2.receivers.get? id ∧
      ∀ transfer, (id, transfer) ∈ (ids.foldl (sweepOne nowMs) state).1 ↔
        (id, transfer) ∈ state.1) ∧
    (id ∈ ids → ∀ receiver, state.2.receivers.get? id = some receiver →
      ∃ swept, (ids.foldl (sweepOne nowMs) state).2.receivers.get? id = some swept ∧
        receiver.Swept nowMs swept ∧
        ∀ transfer, (id, transfer) ∈ (ids.foldl (sweepOne nowMs) state).1 ↔
          (id, transfer) ∈ state.1 ∨ receiver.expired nowMs = some transfer) := by
  have hexpiries : ∀ (state : List (ReceiverId × TransferId) × ReassemblyPool)
      (head other : ReceiverId) (transfer : TransferId), other ≠ head →
      ((other, transfer) ∈ (sweepOne nowMs state head).1 ↔ (other, transfer) ∈ state.1) := by
    intro state head other transfer hne
    obtain ⟨-, hsome, hnone⟩ := sweepOne_spec nowMs state head
    cases hreceiver : state.2.receivers.get? head with
    | none => rw [hnone hreceiver]
    | some receiver =>
      obtain ⟨-, -, -, hlist⟩ := hsome receiver hreceiver
      rw [hlist, List.mem_append]
      apply or_iff_left
      intro hmem
      obtain ⟨_, -, hpair⟩ := List.mem_map.mp hmem
      exact hne (Prod.mk.inj hpair).1.symm
  induction ids generalizing state with
  | nil => exact ⟨fun _ ↦ ⟨rfl, fun _ ↦ Iff.rfl⟩, fun hmem ↦ absurd hmem List.not_mem_nil⟩
  | cons head rest ih =>
    obtain ⟨hothers, hsome, -⟩ := sweepOne_spec nowMs state head
    obtain ⟨hhead, hrest⟩ := List.nodup_cons.mp hnodup
    obtain ⟨hout, hin⟩ := ih hrest (sweepOne nowMs state head)
    rw [List.foldl_cons]
    refine ⟨fun hnot ↦ ?_, fun hmem receiver hreceiver ↦ ?_⟩
    · rw [List.mem_cons, not_or] at hnot
      obtain ⟨hget, hlist⟩ := hout hnot.2
      exact ⟨hget.trans (hothers id hnot.1),
        fun transfer ↦ (hlist transfer).trans (hexpiries state head id transfer hnot.1)⟩
    · by_cases hid : id = head
      · subst hid
        obtain ⟨swept, hswept, hrel, hfirst⟩ := hsome receiver hreceiver
        obtain ⟨hget, hlist⟩ := hout hhead
        refine ⟨swept, hget.trans hswept, hrel, fun transfer ↦ (hlist transfer).trans ?_⟩
        rw [hfirst, List.mem_append]
        apply or_congr_right
        rw [List.mem_map]
        constructor
        · intro hfound
          obtain ⟨other, hother, hpair⟩ := hfound
          rw [← (Prod.mk.inj hpair).2]
          exact Option.mem_toList.mp hother
        · intro hexpired
          exact ⟨transfer, Option.mem_toList.mpr hexpired, rfl⟩
      · rw [List.mem_cons] at hmem
        obtain ⟨swept, hget, hrel, hlist⟩ :=
          hin (hmem.resolve_left hid) receiver ((hothers id hid).trans hreceiver)
        refine ⟨swept, hget, hrel, fun transfer ↦ (hlist transfer).trans ?_⟩
        rw [hexpiries state head id transfer hid]

theorem sweep_spec (pool : ReassemblyPool) (nowMs : ℕ) (id : ReceiverId) :
    (pool.receivers.get? id = none → (pool.sweep nowMs).2.receivers.get? id = none) ∧
    ∀ receiver, pool.receivers.get? id = some receiver →
      ∃ swept, (pool.sweep nowMs).2.receivers.get? id = some swept ∧ receiver.Swept nowMs swept ∧
        ∀ transfer, (id, transfer) ∈ (pool.sweep nowMs).1 ↔
          receiver.expired nowMs = some transfer := by
  obtain ⟨hout, hin⟩ := foldl_sweepOne nowMs pool.receivers.nodup_keys
    ([], { pool with nowMs := max pool.nowMs nowMs }) id
  refine ⟨fun hnone ↦ ?_, fun receiver hreceiver ↦ ?_⟩
  · refine (hout fun hmem ↦ ?_).1.trans hnone
    obtain ⟨receiver, hreceiver⟩ := pool.receivers.mem_keys_iff.mp hmem
    exact absurd (hnone.symm.trans hreceiver) (Option.some_ne_none _).symm
  · obtain ⟨swept, hget, hrel, hlist⟩ :=
      hin (pool.receivers.mem_keys_iff.mpr ⟨receiver, hreceiver⟩) receiver hreceiver
    refine ⟨swept, hget, hrel, fun transfer ↦ (hlist transfer).trans ?_⟩
    exact or_iff_right List.not_mem_nil

theorem receiverCounter_sweep (pool : ReassemblyPool) (nowMs : ℕ) :
    (pool.sweep nowMs).2.receiverCounter = pool.receiverCounter :=
  (keepsOrder_sweep pool nowMs).counter

theorem exists_of_sweep {swept : Receiver}
    (hswept : (pool.sweep nowMs).2.receivers.get? id = some swept) :
    ∃ receiver, pool.receivers.get? id = some receiver ∧ receiver.Swept nowMs swept ∧
      ∀ transfer, (id, transfer) ∈ (pool.sweep nowMs).1 ↔
        receiver.expired nowMs = some transfer := by
  obtain ⟨hnone, hsome⟩ := sweep_spec pool nowMs id
  cases hreceiver : pool.receivers.get? id with
  | none => exact absurd (hswept.symm.trans (hnone hreceiver)) (Option.some_ne_none _)
  | some receiver =>
    obtain ⟨found, hfound, hrel, hlist⟩ := hsome receiver hreceiver
    rw [Option.some.inj (hswept.symm.trans hfound)]
    exact ⟨receiver, rfl, hrel, hlist⟩

/-- A transfer frame is answered after a sweep: by an error that changes nothing more, or by what
the receiver does with it. -/
theorem offerTransfer_cases (pool : ReassemblyPool) (codec : Codec) (id : ReceiverId)
    (bytes : List UInt8) (nowMs : ℕ) :
    ((pool.offerTransfer codec id bytes nowMs).2 = (pool.sweep (max nowMs pool.nowMs)).2 ∧
      ((pool.offerTransfer codec id bytes nowMs).1 = .error .unknownReceiver ∨
        (∃ defect, codec.decodeDown bytes = .error defect ∧
          (pool.offerTransfer codec id bytes nowMs).1 = .error (.codec defect)) ∨
        ∃ receiver message,
          (pool.sweep (max nowMs pool.nowMs)).2.receivers.get? id = some receiver ∧
          codec.decodeDown bytes = .ok message ∧ ((message.epoch ≠ receiver.epoch ∧
              (pool.offerTransfer codec id bytes nowMs).1 = .error .wrongEpoch) ∨
            ((id, message.transfer) ∈ (pool.sweep (max nowMs pool.nowMs)).1 ∧
              (pool.offerTransfer codec id bytes nowMs).1 = .error (.failed .expired))))) ∨
    ∃ receiver message, (pool.sweep (max nowMs pool.nowMs)).2.receivers.get? id = some receiver ∧
      codec.decodeDown bytes = .ok message ∧ message.epoch = receiver.epoch ∧
      (id, message.transfer) ∉ (pool.sweep (max nowMs pool.nowMs)).1 ∧
      ∃ limits, pool.offerTransfer codec id bytes nowMs =
        ((handle codec limits (max nowMs pool.nowMs)
            ((pool.sweep (max nowMs pool.nowMs)).2.focus receiver) message).1,
          (pool.sweep (max nowMs pool.nowMs)).2.store id (handle codec limits (max nowMs pool.nowMs)
              ((pool.sweep (max nowMs pool.nowMs)).2.focus receiver) message).2) := by
  unfold offerTransfer
  simp only
  cases hreceiver : (pool.sweep (max nowMs pool.nowMs)).2.receivers.get? id with
  | none => exact .inl ⟨rfl, .inl rfl⟩
  | some receiver =>
    simp only
    cases hdecode : codec.decodeDown bytes with
    | error defect => exact .inl ⟨rfl, .inr (.inl ⟨defect, rfl, rfl⟩)⟩
    | ok message =>
      simp only
      by_cases hepoch : message.epoch = receiver.epoch
      · rw [if_neg (not_not.mpr hepoch)]
        by_cases hexpired : (id, message.transfer) ∈ (pool.sweep (max nowMs pool.nowMs)).1
        · rw [if_pos hexpired]
          exact .inl ⟨rfl, .inr (.inr ⟨receiver, message, rfl, rfl, .inr ⟨hexpired, rfl⟩⟩)⟩
        · rw [if_neg hexpired]
          exact .inr ⟨receiver, message, rfl, rfl, hepoch, hexpired, _, rfl⟩
      · rw [if_pos hepoch]
        exact .inl ⟨rfl, .inr (.inr ⟨receiver, message, rfl, rfl, .inl ⟨hepoch, rfl⟩⟩)⟩

end ReassemblyPool

/-! ### Calls -/

namespace PoolOp

/-- The clock a call brings, when it sweeps. -/
def clock : PoolOp → Option ℕ
  | .rebindReceiver _ nowMs => some nowMs
  | .offerTransfer _ _ nowMs => some nowMs
  | .offerDelta _ _ nowMs => some nowMs
  | .poll nowMs => some nowMs
  | _ => none

def begins (codec : Codec) (pool : ReassemblyPool) (id : ReceiverId) : PoolOp → Option TransferId
  | .offerTransfer target bytes nowMs =>
    match codec.decodeDown bytes with
    | .error _ => none
    | .ok message =>
      if target = id then
        TransferOutcome.begins message.transfer (pool.offerTransfer codec target bytes nowMs).1
      else none
  | _ => none

def publishes (codec : Codec) (pool : ReassemblyPool) (id : ReceiverId) : PoolOp → Option TransferId
  | .offerTransfer target bytes nowMs =>
    if target = id then
      TransferOutcome.publishes (pool.offerTransfer codec target bytes nowMs).1
    else none
  | _ => none

/-- A call ends a transfer of a receiver: it takes the transfer out of flight, or its answer to a
frame of the transfer says published, cancelled or failed. -/
def Ends (codec : Codec) (run : PoolRun) (id : ReceiverId) (transfer : TransferId) (op : PoolOp) :
    Prop :=
  (∃ before header, run.pool.receivers.get? id = some before ∧ before.flying = some header ∧
    header.transfer = transfer ∧
    ∀ after, (run.step codec op).pool.receivers.get? id = some after →
      ∀ other, after.flying = some other → other.transfer ≠ transfer) ∨
  ∃ bytes nowMs message, op = .offerTransfer id bytes nowMs ∧
    codec.decodeDown bytes = .ok message ∧ message.transfer = transfer ∧
    TransferOutcome.Ends (run.pool.offerTransfer codec id bytes nowMs).1

/-- A call fails a receiver: the transfer in flight expires, or the answer to a frame says so. -/
def Fails (codec : Codec) (run : PoolRun) (id : ReceiverId) (op : PoolOp) : Prop :=
  (∃ nowMs before transfer, op.clock = some nowMs ∧
    run.pool.receivers.get? id = some before ∧
    before.expired (max nowMs run.pool.nowMs) = some transfer) ∨
  (∃ bytes nowMs reason, op = .offerTransfer id bytes nowMs ∧
    (run.pool.offerTransfer codec id bytes nowMs).1 = .error (.failed reason)) ∨
  ∃ bytes nowMs reason, op = .offerDelta id bytes nowMs ∧
    (run.pool.offerDelta codec id bytes nowMs).1 = .error (.failed reason)

end PoolOp

namespace PoolRun

variable {codec : Codec} {run : PoolRun} {op : PoolOp} {id : ReceiverId} {after : Receiver}

theorem get?_store {pool : ReassemblyPool} {target : ReceiverId} {focus : Focus}
    (hafter : (pool.store target focus).receivers.get? id = some after) :
    (target = id ∧ after = focus.receiver) ∨
      (target ≠ id ∧ pool.receivers.get? id = some after) := by
  unfold ReassemblyPool.store at hafter
  rw [BTreeMap.get?_insert] at hafter
  split_ifs at hafter with hid
  · exact .inl ⟨hid.symm, (Option.some.inj hafter).symm⟩
  · exact .inr ⟨Ne.symm hid, hafter⟩

variable {nowMs : ℕ}

theorem step_swept (hclock : op.clock = some nowMs)
    (hafter : (run.step codec op).pool.receivers.get? id = some after) :
    ∃ swept, (run.pool.sweep (max nowMs run.pool.nowMs)).2.receivers.get? id = some swept ∧
      Receiver.Moves (op.begins codec run.pool id) (op.publishes codec run.pool id) swept
        after := by
  cases op with
  | addReceiver epoch wire start => exact nomatch hclock
  | removeReceiver target => exact nomatch hclock
  | popUpdate target => exact nomatch hclock
  | poll clock =>
    rw [← Option.some.inj hclock]
    exact ⟨after, hafter, .refl after⟩
  | rebindReceiver target clock =>
    rw [← Option.some.inj hclock]
    have hstep : (run.pool.rebindReceiver target clock).2.receivers.get? id = some after := hafter
    unfold ReassemblyPool.rebindReceiver at hstep
    simp only at hstep
    split at hstep
    · exact ⟨after, hstep, .refl after⟩
    · rename_i receiver hreceiver
      rcases get?_store hstep with ⟨rfl, rfl⟩ | ⟨-, hkept⟩
      · exact ⟨receiver, hreceiver,
          ((run.pool.sweep (max clock run.pool.nowMs)).2.focus receiver).moves_rebind⟩
      · exact ⟨after, hkept, .refl after⟩
  | offerDelta target bytes clock =>
    rw [← Option.some.inj hclock]
    have hstep : (run.pool.offerDelta codec target bytes clock).2.receivers.get? id =
      some after := hafter
    unfold ReassemblyPool.offerDelta at hstep
    simp only at hstep
    split at hstep
    · exact ⟨after, hstep, .refl after⟩
    · rename_i receiver hreceiver
      rcases get?_store hstep with ⟨rfl, rfl⟩ | ⟨-, hkept⟩
      · exact ⟨receiver, hreceiver,
          ((run.pool.sweep (max clock run.pool.nowMs)).2.focus receiver).moves_offerDelta codec _
            bytes⟩
      · exact ⟨after, hkept, .refl after⟩
  | offerTransfer target bytes clock =>
    rw [← Option.some.inj hclock]
    have hstep : (run.pool.offerTransfer codec target bytes clock).2.receivers.get? id =
      some after := hafter
    simp only [PoolOp.begins, PoolOp.publishes]
    rcases run.pool.offerTransfer_cases codec target bytes clock with ⟨hpool, -⟩ |
      ⟨receiver, message, hreceiver, hdecode, -, -, limits, heq⟩
    · rw [hpool] at hstep
      exact ⟨after, hstep, (Receiver.Moves.refl after).mayPublish⟩
    · rw [heq] at hstep
      rcases get?_store hstep with ⟨rfl, rfl⟩ | ⟨hne, hkept⟩
      · refine ⟨receiver, hreceiver, ?_⟩
        rw [hdecode]
        simp only [if_true]
        rw [heq]
        exact moves_handle codec limits (max clock run.pool.nowMs)
          ((run.pool.sweep (max clock run.pool.nowMs)).2.focus receiver) message
      · exact ⟨after, hkept, (Receiver.Moves.refl after).mayPublish⟩

theorem pool_step_popUpdate (target : ReceiverId) :
    (run.step codec (.popUpdate target)).pool = (run.pool.popUpdate target).2 := by
  unfold step
  simp only
  split
  · rename_i heq
    rw [heq]
  · rename_i heq
    rw [heq]

theorem pool_step_addReceiver (epoch : SessionEpoch) (wire : DeltaWire) (start : GateMode) :
    (run.step codec (.addReceiver epoch wire start)).pool =
      (run.pool.addReceiver epoch wire start).2 := by
  unfold step
  simp only
  split
  · rename_i heq
    rw [heq]
  · rename_i heq
    rw [heq]

theorem step_cases (hafter : (run.step codec op).pool.receivers.get? id = some after) :
    (∃ before, run.pool.receivers.get? id = some before ∧
      Receiver.Moves (op.begins codec run.pool id) (op.publishes codec run.pool id) before after) ∨
    (after.Sound ∧ run.pool.receiverCounter < id ∧
      id ≤ (run.step codec op).pool.receiverCounter) := by
  have hsweeps : ∀ nowMs, op.clock = some nowMs →
      ∃ before, run.pool.receivers.get? id = some before ∧
        Receiver.Moves (op.begins codec run.pool id) (op.publishes codec run.pool id) before
          after := by
    intro nowMs hclock
    obtain ⟨swept, hswept, hmoves⟩ := step_swept hclock hafter
    obtain ⟨before, hbefore, hrel, -⟩ := ReassemblyPool.exists_of_sweep hswept
    exact ⟨before, hbefore, hrel.moves.trans hmoves⟩
  cases op with
  | rebindReceiver target nowMs => exact .inl (hsweeps nowMs rfl)
  | offerTransfer target bytes nowMs => exact .inl (hsweeps nowMs rfl)
  | offerDelta target bytes nowMs => exact .inl (hsweeps nowMs rfl)
  | poll nowMs => exact .inl (hsweeps nowMs rfl)
  | popUpdate target =>
    left
    rw [pool_step_popUpdate] at hafter
    unfold ReassemblyPool.popUpdate at hafter
    split at hafter
    · exact ⟨after, hafter, .refl after⟩
    · rename_i receiver hreceiver
      rcases get?_store hafter with ⟨rfl, rfl⟩ | ⟨-, hkept⟩
      · exact ⟨receiver, hreceiver, (run.pool.focus receiver).moves_popUpdate⟩
      · exact ⟨after, hkept, .refl after⟩
  | removeReceiver target =>
    left
    have hstep : (run.pool.removeReceiver target).receivers.get? id = some after := hafter
    unfold ReassemblyPool.removeReceiver at hstep
    split at hstep
    · exact ⟨after, hstep, .refl after⟩
    · simp only [BTreeMap.get?_erase] at hstep
      split_ifs at hstep
      exact ⟨after, hstep, .refl after⟩
  | addReceiver epoch wire start =>
    rw [pool_step_addReceiver] at hafter ⊢
    unfold ReassemblyPool.addReceiver at hafter ⊢
    split_ifs at hafter ⊢
    · exact .inl ⟨after, hafter, .refl after⟩
    · exact .inl ⟨after, hafter, .refl after⟩
    · simp only [BTreeMap.get?_insert] at hafter ⊢
      split_ifs at hafter with hid
      · right
        rw [← Option.some.inj hafter, hid]
        exact ⟨Receiver.sound_new epoch wire start, Nat.lt_succ_self _, le_rfl⟩
      · exact .inl ⟨after, hafter, .refl after⟩

/-- Ids are issued upwards. -/
theorem counter_step (codec : Codec) (run : PoolRun) (op : PoolOp) :
    run.pool.receiverCounter ≤ (run.step codec op).pool.receiverCounter := by
  cases op with
  | rebindReceiver target nowMs =>
    exact (ReassemblyPool.keepsOrder_rebindReceiver run.pool target nowMs).counter.ge
  | offerTransfer target bytes nowMs =>
    exact (ReassemblyPool.keepsOrder_offerTransfer run.pool codec target bytes nowMs).counter.ge
  | offerDelta target bytes nowMs =>
    exact (ReassemblyPool.keepsOrder_offerDelta run.pool codec target bytes nowMs).counter.ge
  | poll nowMs => exact (run.pool.receiverCounter_sweep _).ge
  | popUpdate target =>
    rw [pool_step_popUpdate]
    unfold ReassemblyPool.popUpdate
    split
    · exact le_rfl
    · exact le_rfl
  | removeReceiver target =>
    exact (ReassemblyPool.keepsOrder_removeReceiver run.pool target).counter.ge
  | addReceiver epoch wire start =>
    rw [pool_step_addReceiver]
    unfold ReassemblyPool.addReceiver
    split_ifs
    · exact le_rfl
    · exact le_rfl
    · exact Nat.le_succ _

/-! ### Runs -/

structure Kept (run : PoolRun) : Prop where
  sound : ∀ id receiver, run.pool.receivers.get? id = some receiver → receiver.Sound
  issued : ∀ id receiver, run.pool.receivers.get? id = some receiver →
    id ≤ run.pool.receiverCounter

theorem Kept.step (hrun : run.Kept) (codec : Codec) (op : PoolOp) : (run.step codec op).Kept := by
  refine ⟨fun id after hafter ↦ ?_, fun id after hafter ↦ ?_⟩
  · rcases step_cases hafter with ⟨before, hbefore, hmoves⟩ | ⟨hsound, -, -⟩
    · exact hmoves.sound (hrun.sound id before hbefore)
    · exact hsound
  · rcases step_cases hafter with ⟨before, hbefore, -⟩ | ⟨-, -, hissued⟩
    · exact (hrun.issued id before hbefore).trans (counter_step codec run op)
    · exact hissued

theorem after_concat (codec : Codec) (pool : ReassemblyPool) (ops : List PoolOp) (op : PoolOp) :
    PoolRun.after codec pool (ops ++ [op]) = (PoolRun.after codec pool ops).step codec op :=
  List.foldl_concat ..

variable {limits : TransferLimits}

theorem kept_after (codec : Codec) {pool : ReassemblyPool}
    (hnew : ReassemblyPool.new limits = .ok pool) (ops : List PoolOp) :
    (PoolRun.after codec pool ops).Kept := by
  induction ops using List.reverseRecOn with
  | nil =>
    unfold ReassemblyPool.new at hnew
    split at hnew
    · exact nomatch hnew
    · rw [← Except.ok.inj hnew]
      exact ⟨nofun, nofun⟩
  | append_singleton ops op ih =>
    rw [after_concat]
    exact ih.step codec op

variable {pool : ReassemblyPool} {first rest : List PoolOp} {before : Receiver}

theorem exists_before (hkept : (PoolRun.after codec pool first).Kept)
    (hbefore : (PoolRun.after codec pool first).pool.receivers.get? id = some before)
    (hafter : ((PoolRun.after codec pool (first ++ rest)).step codec op).pool.receivers.get? id =
      some after) : ∃ middle,
      (PoolRun.after codec pool (first ++ rest)).pool.receivers.get? id = some middle ∧
      Receiver.Moves (op.begins codec (PoolRun.after codec pool (first ++ rest)).pool id)
        (op.publishes codec (PoolRun.after codec pool (first ++ rest)).pool id) middle after := by
  have hcounter : (PoolRun.after codec pool first).pool.receiverCounter ≤
      (PoolRun.after codec pool (first ++ rest)).pool.receiverCounter := by
    clear hafter
    induction rest using List.reverseRecOn with
    | nil => rw [List.append_nil]
    | append_singleton rest op ih =>
      rw [← List.append_assoc, after_concat]
      exact ih.trans (counter_step codec _ op)
  rcases step_cases hafter with hmoves | ⟨-, hfresh, -⟩
  · exact hmoves
  · exact absurd ((hkept.issued id before hbefore).trans hcounter) (not_le.mpr hfresh)

/-- Over a run, ids are retired and sequences passed upwards only. -/
theorem moves_after (hnew : ReassemblyPool.new limits = .ok pool)
    (hbefore : (PoolRun.after codec pool first).pool.receivers.get? id = some before)
    (hafter : (PoolRun.after codec pool (first ++ rest)).pool.receivers.get? id = some after) :
    before.retiredThrough ≤ after.retiredThrough ∧ before.nextEventSeq ≤ after.nextEventSeq := by
  have hkept := kept_after codec hnew
  induction rest using List.reverseRecOn generalizing after with
  | nil =>
    rw [List.append_nil] at hafter
    rw [Option.some.inj (hbefore.symm.trans hafter)]
    exact ⟨le_rfl, le_rfl⟩
  | append_singleton rest op ih =>
    rw [← List.append_assoc, after_concat] at hafter
    obtain ⟨middle, hmiddle, hmoves⟩ := exists_before (hkept first) hbefore hafter
    obtain ⟨hretired, hnext⟩ := ih hmiddle
    exact ⟨hretired.trans hmoves.retired,
      hnext.trans (hmoves.next ((hkept (first ++ rest)).sound id middle hmiddle))⟩

/-! ### Transfers that have ended -/

theorem retired_of_expired {swept : Receiver} {transfer : TransferId}
    (hrel : before.Swept nowMs swept) (hexpired : before.expired nowMs = some transfer) :
    (transfer : ℕ) ≤ swept.retiredThrough := by
  obtain ⟨inFlight, hinFlight, -, rfl⟩ := Receiver.expired_eq_some.mp hexpired
  have hleaves := hrel.moves.leaves inFlight.header
    (Receiver.flying_eq_some.mpr ⟨inFlight, hinFlight, rfl⟩)
  apply hleaves.resolve_left
  rw [(hrel.waits _ hexpired).2]
  exact (Option.some_ne_none _).symm

theorem retired_of_ends {transfer : TransferId} (hends : op.Ends codec run id transfer)
    (hkept : run.Kept) (hafter : (run.step codec op).pool.receivers.get? id = some after) :
    (transfer : ℕ) ≤ after.retiredThrough := by
  rcases hends with ⟨found, header, hfound, hflying, rfl, hgone⟩ |
    ⟨bytes, nowMs, message, rfl, hdecode, rfl, hends⟩
  · rcases step_cases hafter with ⟨other, hother, hmoves⟩ | ⟨-, hfresh, -⟩
    · rw [← Option.some.inj (hfound.symm.trans hother)] at hmoves
      apply (hmoves.leaves header hflying).resolve_left
      exact fun hstill ↦ hgone after hafter header hstill rfl
    · exact absurd (hkept.issued id found hfound) (not_le.mpr hfresh)
  · have hstep : (run.pool.offerTransfer codec id bytes nowMs).2.receivers.get? id = some after :=
      hafter
    rcases run.pool.offerTransfer_cases codec id bytes nowMs with ⟨hpool, hresult⟩ |
      ⟨receiver, other, hreceiver, hother, -, -, limits, heq⟩
    · rcases hresult with hresult | ⟨defect, -, hresult⟩ | ⟨receiver, other, hreceiver, hother, hor⟩
      · rw [hresult] at hends
        exact hends.elim
      · rw [hresult] at hends
        exact hends.elim
      · rcases hor with ⟨-, hresult⟩ | ⟨hmem, -⟩
        · rw [hresult] at hends
          exact hends.elim
        · rw [hpool] at hstep
          obtain ⟨found, -, hrel, hlist⟩ := ReassemblyPool.exists_of_sweep hstep
          rw [Except.ok.inj (hdecode.symm.trans hother)]
          exact retired_of_expired hrel ((hlist _).mp hmem)
    · rw [heq] at hstep hends
      rw [Except.ok.inj (hdecode.symm.trans hother)]
      rcases get?_store hstep with ⟨-, rfl⟩ | ⟨hne, -⟩
      · exact handle_retires hends
      · exact absurd rfl hne

/-- A frame of a retired transfer is answered as such, whatever expires before it is looked at. -/
theorem offerTransfer_stale {bytes : List UInt8} {message : TransferDown} (hkept : run.Kept)
    (hbefore : run.pool.receivers.get? id = some before)
    (hretired : (message.transfer : ℕ) ≤ before.retiredThrough)
    (hdecode : codec.decodeDown bytes = .ok message) (hepoch : message.epoch = before.epoch) :
    (run.pool.offerTransfer codec id bytes nowMs).1 = message.staleResult := by
  obtain ⟨swept, hswept, hrel, hlist⟩ :=
    (run.pool.sweep_spec (max nowMs run.pool.nowMs) id).2 before hbefore
  have hsound := hkept.sound id before hbefore
  have hnot : (id, message.transfer) ∉ (run.pool.sweep (max nowMs run.pool.nowMs)).1 := by
    intro hmem
    obtain ⟨inFlight, hinFlight, -, htransfer⟩ := Receiver.expired_eq_some.mp ((hlist _).mp hmem)
    have habove := hsound.above inFlight.header
      (Receiver.flying_eq_some.mpr ⟨inFlight, hinFlight, rfl⟩)
    rw [htransfer] at habove
    exact absurd hretired (not_le.mpr habove)
  unfold ReassemblyPool.offerTransfer
  simp only [hswept, hdecode]
  rw [if_neg (not_not.mpr (hepoch.trans hrel.moves.epoch.symm)), if_neg hnot]
  exact handle_stale (hrel.moves.sound hsound).toPlaced (hretired.trans hrel.moves.retired)

theorem offerTransfer_expired {bytes : List UInt8} {message : TransferDown}
    (hbefore : run.pool.receivers.get? id = some before)
    (hexpired : before.expired (max nowMs run.pool.nowMs) = some message.transfer)
    (hdecode : codec.decodeDown bytes = .ok message) (hepoch : message.epoch = before.epoch) :
    (run.pool.offerTransfer codec id bytes nowMs).1 = .error (.failed .expired) := by
  obtain ⟨swept, hswept, hrel, hlist⟩ :=
    (run.pool.sweep_spec (max nowMs run.pool.nowMs) id).2 before hbefore
  unfold ReassemblyPool.offerTransfer
  simp only [hswept, hdecode]
  rw [if_neg (not_not.mpr (hepoch.trans hrel.moves.epoch.symm)), if_pos ((hlist _).mpr hexpired)]

/-- A frame that is neither refused for its receiver nor for its form finds a receiver. -/
theorem exists_of_answer {bytes : List UInt8}
    (hknown : (run.pool.offerTransfer codec id bytes nowMs).1 ≠ .error .unknownReceiver)
    (hdecodes : ∀ defect,
      (run.pool.offerTransfer codec id bytes nowMs).1 ≠ .error (.codec defect)) :
    ∃ before, run.pool.receivers.get? id = some before := by
  have hfound : ∃ receiver,
      (run.pool.sweep (max nowMs run.pool.nowMs)).2.receivers.get? id = some receiver := by
    rcases run.pool.offerTransfer_cases codec id bytes nowMs with ⟨-, hanswer⟩ |
      ⟨receiver, _, hreceiver, -⟩
    · rcases hanswer with hanswer | ⟨_, -, hanswer⟩ | ⟨receiver, _, hreceiver, -⟩
      · exact absurd hanswer hknown
      · exact absurd hanswer (hdecodes _)
      · exact ⟨receiver, hreceiver⟩
    · exact ⟨receiver, hreceiver⟩
  obtain ⟨receiver, hreceiver⟩ := hfound
  obtain ⟨before, hbefore, -⟩ := ReassemblyPool.exists_of_sweep hreceiver
  exact ⟨before, hbefore⟩

theorem lt_of_answer {bytes : List UInt8} {message : TransferDown} (hkept : run.Kept)
    (hdecode : codec.decodeDown bytes = .ok message)
    (hanswer : ∃ transfer, TransferOutcome.begins message.transfer
        (run.pool.offerTransfer codec id bytes nowMs).1 = some transfer ∨
      TransferOutcome.publishes (run.pool.offerTransfer codec id bytes nowMs).1 = some transfer) :
    ∃ before, run.pool.receivers.get? id = some before ∧
      before.retiredThrough < (message.transfer : ℕ) := by
  obtain ⟨transfer, hanswer⟩ := hanswer
  rcases run.pool.offerTransfer_cases codec id bytes nowMs with ⟨-, hresult⟩ |
    ⟨receiver, other, hreceiver, hother, hepoch, -, -, -⟩
  · have herror : ∃ failure, (run.pool.offerTransfer codec id bytes nowMs).1 = .error failure := by
      rcases hresult with hresult | ⟨_, -, hresult⟩ | ⟨_, _, -, -, ⟨-, hresult⟩ | ⟨-, hresult⟩⟩
      · exact ⟨_, hresult⟩
      · exact ⟨_, hresult⟩
      · exact ⟨_, hresult⟩
      · exact ⟨_, hresult⟩
    obtain ⟨failure, herror⟩ := herror
    rw [herror] at hanswer
    rcases hanswer with hanswer | hanswer
    · exact nomatch hanswer
    · exact nomatch hanswer
  · obtain ⟨before, hbefore, hrel, -⟩ := ReassemblyPool.exists_of_sweep hreceiver
    refine ⟨before, hbefore, ?_⟩
    by_contra hnot
    rw [← Except.ok.inj (hdecode.symm.trans hother)] at hepoch
    have hstale := @offerTransfer_stale codec run id nowMs before bytes message hkept hbefore
      (not_lt.mp hnot) hdecode (hepoch.trans hrel.moves.epoch)
    rw [hstale] at hanswer
    cases message with
    | begin header =>
      rcases hanswer with hanswer | hanswer
      · exact nomatch hanswer
      · exact nomatch hanswer
    | chunk chunk =>
      rcases hanswer with hanswer | hanswer
      · exact nomatch hanswer
      · exact nomatch hanswer
    | cancel epoch transfer reason =>
      rcases hanswer with hanswer | hanswer
      · exact nomatch hanswer
      · exact nomatch hanswer

/-- A publication is of the transfer the frame names. -/
theorem transfer_of_publishes {bytes : List UInt8} {transfer : TransferId}
    (hpublishes : TransferOutcome.publishes (run.pool.offerTransfer codec id bytes nowMs).1 =
      some transfer) :
    ∃ message, codec.decodeDown bytes = .ok message ∧ message.transfer = transfer := by
  rcases run.pool.offerTransfer_cases codec id bytes nowMs with ⟨-, hresult⟩ |
    ⟨receiver, message, -, hdecode, -, -, limits, heq⟩
  · rcases hresult with hresult | ⟨_, -, hresult⟩ | ⟨_, _, -, -, ⟨-, hresult⟩ | ⟨-, hresult⟩⟩
    · rw [hresult] at hpublishes
      exact nomatch hpublishes
    · rw [hresult] at hpublishes
      exact nomatch hpublishes
    · rw [hresult] at hpublishes
      exact nomatch hpublishes
    · rw [hresult] at hpublishes
      exact nomatch hpublishes
  · rw [heq] at hpublishes
    exact ⟨message, hdecode, handle_publishes hpublishes⟩

theorem lt_of_begins_or_publishes {transfer : TransferId} (hkept : run.Kept)
    (hcall : op.begins codec run.pool id = some transfer ∨
      op.publishes codec run.pool id = some transfer) :
    ∃ before, run.pool.receivers.get? id = some before ∧
      before.retiredThrough < (transfer : ℕ) := by
  cases op with
  | addReceiver epoch wire start => exact hcall.elim nofun nofun
  | removeReceiver target => exact hcall.elim nofun nofun
  | rebindReceiver target nowMs => exact hcall.elim nofun nofun
  | offerDelta target bytes nowMs => exact hcall.elim nofun nofun
  | poll nowMs => exact hcall.elim nofun nofun
  | popUpdate target => exact hcall.elim nofun nofun
  | offerTransfer target bytes nowMs =>
    rcases hcall with hbegins | hpublishes
    · unfold PoolOp.begins at hbegins
      simp only at hbegins
      split at hbegins
      · exact nomatch hbegins
      · rename_i message hdecode
        split_ifs at hbegins with hid
        rw [← hid]
        have hlt := lt_of_answer hkept hdecode ⟨transfer, .inl hbegins⟩
        have htransfer : message.transfer = transfer := by
          unfold TransferOutcome.begins at hbegins
          split at hbegins
          · exact Option.some.inj hbegins
          · exact nomatch hbegins
        rw [← htransfer]
        exact hlt
    · unfold PoolOp.publishes at hpublishes
      simp only at hpublishes
      split_ifs at hpublishes with hid
      rw [← hid]
      obtain ⟨message, hdecode, htransfer⟩ := transfer_of_publishes hpublishes
      rw [← htransfer]
      exact lt_of_answer hkept hdecode ⟨transfer, .inr hpublishes⟩

/-! ### Receivers that have failed -/

/-- After a call that fails it, a receiver waits, and only a transfer the call itself began is in
flight. -/
theorem waits_of_fails (hfails : op.Fails codec run id)
    (hafter : (run.step codec op).pool.receivers.get? id = some after) :
    after.mode = .awaitSnapshot ∧ ∀ header, after.flying = some header →
      op.begins codec run.pool id = some header.transfer := by
  have hidle : after.mode = .awaitSnapshot ∧ after.flying = none →
      after.mode = .awaitSnapshot ∧ ∀ header, after.flying = some header →
        op.begins codec run.pool id = some header.transfer := by
    intro hwaits
    refine ⟨hwaits.1, fun header hheader ↦ ?_⟩
    exact absurd (hwaits.2.symm.trans hheader) (Option.some_ne_none _).symm
  rcases hfails with ⟨nowMs, before, transfer, hclock, hbefore, hexpired⟩ |
    ⟨bytes, nowMs, reason, rfl, hresult⟩ | ⟨bytes, nowMs, reason, rfl, hresult⟩
  · obtain ⟨swept, hswept, hmoves⟩ := step_swept hclock hafter
    obtain ⟨found, hfound, hrel, -⟩ := ReassemblyPool.exists_of_sweep hswept
    rw [← Option.some.inj (hbefore.symm.trans hfound)] at hrel
    obtain ⟨hmode, hnone⟩ := hrel.waits transfer hexpired
    refine ⟨?_, fun header hheader ↦ ?_⟩
    · cases hlive : after.mode with
      | awaitSnapshot => rfl
      | live =>
        rcases hmoves.live hlive with hlive | ⟨header, -, hflying⟩
        · exact GateMode.noConfusion (hmode.symm.trans hlive)
        · exact absurd (hnone.symm.trans hflying) (Option.some_ne_none _).symm
    · apply (hmoves.flies header hheader).resolve_left
      rw [hnone]
      exact (Option.some_ne_none _).symm
  · have hstep : (run.pool.offerTransfer codec id bytes nowMs).2.receivers.get? id = some after :=
      hafter
    apply hidle
    rcases run.pool.offerTransfer_cases codec id bytes nowMs with ⟨hpool, hanswer⟩ |
      ⟨receiver, message, -, -, -, -, limits, heq⟩
    · rcases hanswer with hanswer | ⟨_, -, hanswer⟩ | ⟨_, _, -, -, ⟨-, hanswer⟩ | ⟨hmem, -⟩⟩
      · exact nomatch hresult.symm.trans hanswer
      · exact nomatch hresult.symm.trans hanswer
      · exact nomatch hresult.symm.trans hanswer
      · rw [hpool] at hstep
        obtain ⟨found, -, hrel, hlist⟩ := ReassemblyPool.exists_of_sweep hstep
        exact hrel.waits _ ((hlist _).mp hmem)
    · rw [heq] at hstep hresult
      rcases get?_store hstep with ⟨-, rfl⟩ | ⟨hne, -⟩
      · exact handle_waits hresult
      · exact absurd rfl hne
  · have hstep : (run.pool.offerDelta codec id bytes nowMs).2.receivers.get? id = some after :=
      hafter
    apply hidle
    unfold ReassemblyPool.offerDelta at hstep hresult
    simp only at hstep hresult
    split at hstep
    · rename_i hnone
      rw [hnone] at hresult
      exact nomatch hresult
    · rename_i receiver hreceiver
      rw [hreceiver] at hresult
      rcases get?_store hstep with ⟨-, rfl⟩ | ⟨hne, -⟩
      · exact Focus.offerDelta_waits hresult
      · exact absurd rfl hne

theorem exists_after_step (hnew : ReassemblyPool.new limits = .ok pool)
    (hbefore : (PoolRun.after codec pool first).pool.receivers.get? id = some before)
    (hafter : (PoolRun.after codec pool (first ++ op :: rest)).pool.receivers.get? id =
      some after) : ∃ middle, (PoolRun.after codec pool (first ++ [op])).pool.receivers.get? id =
      some middle := by
  induction rest using List.reverseRecOn generalizing after with
  | nil => exact ⟨after, hafter⟩
  | append_singleton rest last ih =>
    rw [← List.cons_append, ← List.append_assoc, after_concat] at hafter
    obtain ⟨middle, hmiddle, -⟩ := exists_before (kept_after codec hnew first) hbefore hafter
    exact ih hmiddle

theorem exists_of_ends {transfer : TransferId} (hends : op.Ends codec run id transfer) :
    ∃ before, run.pool.receivers.get? id = some before := by
  rcases hends with ⟨before, _, hbefore, -⟩ | ⟨bytes, nowMs, message, -, -, -, hends⟩
  · exact ⟨before, hbefore⟩
  · apply exists_of_answer
    · intro hresult
      rw [hresult] at hends
      exact hends
    · intro defect hresult
      rw [hresult] at hends
      exact hends

def Begun (codec : Codec) (pool : ReassemblyPool) (id : ReceiverId) (first calls : List PoolOp)
    (transfer : TransferId) : Prop :=
  ∃ early begins late, calls = early ++ begins :: late ∧
    begins.begins codec (PoolRun.after codec pool (first ++ early)).pool id = some transfer

/-- Among calls made after others, one publishes for a receiver a transfer begun among those before
it. -/
def Republished (codec : Codec) (pool : ReassemblyPool) (id : ReceiverId)
    (first calls : List PoolOp) : Prop :=
  ∃ early publishes late transfer, calls = early ++ publishes :: late ∧
    publishes.publishes codec (PoolRun.after codec pool (first ++ early)).pool id =
      some transfer ∧
    Begun codec pool id first early transfer

theorem Begun.concat {calls : List PoolOp} {transfer : TransferId}
    (hbegun : Begun codec pool id first calls transfer) (op : PoolOp) :
    Begun codec pool id first (calls ++ [op]) transfer := by
  obtain ⟨early, begins, late, rfl, hbegins⟩ := hbegun
  exact ⟨early, begins, late ++ [op], by simp, hbegins⟩

theorem Republished.concat {calls : List PoolOp}
    (hpublished : Republished codec pool id first calls) (op : PoolOp) :
    Republished codec pool id first (calls ++ [op]) := by
  obtain ⟨early, publishes, late, transfer, rfl, hpublishes, hbegun⟩ := hpublished
  exact ⟨early, publishes, late ++ [op], transfer, by simp, hpublishes, hbegun⟩

/-- After a failure a receiver is live only once a transfer begun since was published, and only a
transfer begun since is in flight. -/
theorem republished_of_live (hnew : ReassemblyPool.new limits = .ok pool)
    (hfails : op.Fails codec (PoolRun.after codec pool first) id)
    (hafter : (PoolRun.after codec pool (first ++ op :: rest)).pool.receivers.get? id =
      some after) : (after.mode = .live → Republished codec pool id first (op :: rest)) ∧
      ∀ header, after.flying = some header →
        Begun codec pool id first (op :: rest) header.transfer := by
  have hkept := kept_after codec hnew
  have hfailed : ∀ failed,
      (PoolRun.after codec pool (first ++ [op])).pool.receivers.get? id = some failed →
      failed.mode = .awaitSnapshot ∧ ∀ header, failed.flying = some header →
        op.begins codec (PoolRun.after codec pool first).pool id = some header.transfer := by
    intro failed hpresent
    rw [after_concat] at hpresent
    exact waits_of_fails hfails hpresent
  -- The receiver that failed is the one that is there later: ids are issued once.
  have hissued : ∃ before, (PoolRun.after codec pool first).pool.receivers.get? id =
      some before := by
    rcases hfails with ⟨_, before, _, -, hbefore, -⟩ | ⟨bytes, nowMs, reason, -, hresult⟩ |
      ⟨bytes, nowMs, reason, -, hresult⟩
    · exact ⟨before, hbefore⟩
    · apply exists_of_answer
      · rw [hresult]
        exact nofun
      · rw [hresult]
        exact nofun
    · unfold ReassemblyPool.offerDelta at hresult
      simp only at hresult
      split at hresult
      · exact nomatch hresult
      · rename_i receiver hreceiver
        obtain ⟨before, hbefore, -⟩ := ReassemblyPool.exists_of_sweep hreceiver
        exact ⟨before, hbefore⟩
  obtain ⟨before, hbefore⟩ := hissued
  induction rest using List.reverseRecOn generalizing after with
  | nil =>
    obtain ⟨hmode, hbegins⟩ := hfailed after hafter
    refine ⟨fun hlive ↦ GateMode.noConfusion (hmode.symm.trans hlive), fun header hheader ↦ ?_⟩
    refine ⟨[], op, [], rfl, ?_⟩
    rw [List.append_nil]
    exact hbegins header hheader
  | append_singleton rest last ih =>
    rw [← List.cons_append, ← List.append_assoc, after_concat] at hafter
    obtain ⟨middle, hmiddle, hmoves⟩ := exists_before (hkept first) hbefore hafter
    obtain ⟨hlive, hflying⟩ := ih hmiddle
    rw [← List.cons_append]
    refine ⟨fun hafterLive ↦ ?_, fun header hheader ↦ ?_⟩
    · rcases hmoves.live hafterLive with hmiddleLive | ⟨header, hpublishes, hheader⟩
      · exact (hlive hmiddleLive).concat last
      · exact ⟨op :: rest, last, [], header.transfer, rfl, hpublishes, hflying header hheader⟩
    · rcases hmoves.flies header hheader with hheader | hbegins
      · exact (hflying header hheader).concat last
      · exact ⟨op :: rest, last, [], rfl, hbegins⟩

/-- Transfer ids are used once and nothing releasable waits, for every receiver over every run.
Assumes: a pool made from limits that pass their own checks. -/
theorem transfers_used_once (codec : Codec) (limits : TransferLimits) (pool : ReassemblyPool)
    (hnew : ReassemblyPool.new limits = .ok pool) : (∀ first rest id before after,
      (PoolRun.after codec pool first).pool.receivers.get? id = some before →
      (PoolRun.after codec pool (first ++ rest)).pool.receivers.get? id = some after →
      before.retiredThrough ≤ after.retiredThrough ∧ before.nextEventSeq ≤ after.nextEventSeq) ∧
    (∀ ops id receiver, (PoolRun.after codec pool ops).pool.receivers.get? id = some receiver →
      (∀ inFlight, receiver.inFlight = some inFlight →
        receiver.retiredThrough < (inFlight.header.transfer : ℕ)) ∧
      (∀ seq delta, receiver.held.get? seq = some delta → receiver.nextEventSeq ≤ seq) ∧
      (receiver.mode = .live → receiver.inFlight = none →
        receiver.held.get? receiver.nextEventSeq = none)) ∧
    (∀ first op rest id transfer, op.Ends codec (PoolRun.after codec pool first) id transfer →
      (∀ later : PoolOp,
        later.begins codec (PoolRun.after codec pool (first ++ op :: rest)).pool id ≠
            some transfer ∧
          later.publishes codec (PoolRun.after codec pool (first ++ op :: rest)).pool id ≠
            some transfer) ∧ ∀ receiver bytes nowMs message,
        (PoolRun.after codec pool (first ++ op :: rest)).pool.receivers.get? id = some receiver →
        codec.decodeDown bytes = .ok message → message.epoch = receiver.epoch →
        message.transfer = transfer →
        ((PoolRun.after codec pool (first ++ op :: rest)).pool.offerTransfer codec id bytes
          nowMs).1 = message.staleResult) ∧ (∀ ops id receiver bytes nowMs message,
      (PoolRun.after codec pool ops).pool.receivers.get? id = some receiver →
      codec.decodeDown bytes = .ok message → message.epoch = receiver.epoch →
      receiver.expired (max nowMs (PoolRun.after codec pool ops).pool.nowMs) =
        some message.transfer →
      ((PoolRun.after codec pool ops).pool.offerTransfer codec id bytes nowMs).1 =
        .error (.failed .expired)) ∧
    ∀ first op rest id receiver, op.Fails codec (PoolRun.after codec pool first) id →
      (PoolRun.after codec pool (first ++ op :: rest)).pool.receivers.get? id = some receiver →
      receiver.mode = .live → Republished codec pool id first (op :: rest) := by
  have hkept := kept_after codec hnew
  refine ⟨fun first rest id before after hbefore hafter ↦ moves_after hnew hbefore hafter,
    fun ops id receiver hreceiver ↦ ?_, fun first op rest id transfer hends ↦ ?_,
    fun ops id receiver bytes nowMs message hreceiver hdecode hepoch hexpired ↦
      offerTransfer_expired hreceiver hexpired hdecode hepoch,
    fun first op rest id receiver hfails hreceiver ↦
      (republished_of_live hnew hfails hreceiver).1⟩
  · have hsound := (hkept ops).sound id receiver hreceiver
    refine ⟨fun inFlight hinFlight ↦ ?_, hsound.held, fun hlive hnone ↦ hsound.released hlive ?_⟩
    · exact hsound.above _ (Receiver.flying_eq_some.mpr ⟨inFlight, hinFlight, rfl⟩)
    · unfold Receiver.flying
      rw [hnone]
      rfl
  · have hretired : ∀ receiver,
        (PoolRun.after codec pool (first ++ op :: rest)).pool.receivers.get? id = some receiver →
        (transfer : ℕ) ≤ receiver.retiredThrough := by
      intro receiver hreceiver
      obtain ⟨before, hbefore⟩ := exists_of_ends hends
      obtain ⟨middle, hmiddle⟩ := exists_after_step hnew hbefore hreceiver
      rw [List.append_cons] at hreceiver
      have hle := (moves_after hnew hmiddle hreceiver).1
      rw [after_concat] at hmiddle
      exact (retired_of_ends hends (hkept first) hmiddle).trans hle
    refine ⟨fun later ↦ ?_, fun receiver bytes nowMs message hreceiver hdecode hepoch hid ↦ ?_⟩
    · have hnot : ¬∃ before,
          (PoolRun.after codec pool (first ++ op :: rest)).pool.receivers.get? id = some before ∧
          before.retiredThrough < (transfer : ℕ) := by
        intro hfresh
        obtain ⟨before, hbefore, hlt⟩ := hfresh
        exact absurd (hretired before hbefore) (not_le.mpr hlt)
      exact ⟨fun hbegins ↦ hnot (lt_of_begins_or_publishes (hkept _) (.inl hbegins)),
        fun hpublishes ↦ hnot (lt_of_begins_or_publishes (hkept _) (.inr hpublishes))⟩
    · exact offerTransfer_stale (hkept _) hreceiver (hid ▸ hretired receiver hreceiver) hdecode
        hepoch

/-- The sample decoders, with the decoder of transfer frames of the wire. -/
def wireCodec : Codec := { sampleCodec with decodeDown := decodeDown }

def sampleCancelFrame : List UInt8 := [0x81, 2, 0x12] ++ List.replicate 16 7 ++ [1, 1]

/-- The pool of the default limits. -/
def samplePool : ReassemblyPool := ⟨TransferLimits.v1, 0, .empty, 0, .zero, .zero⟩

theorem ends_sampleCancelFrame : (PoolOp.offerTransfer 1 sampleCancelFrame 10).Ends wireCodec
    (PoolRun.after wireCodec samplePool [.addReceiver sampleEpoch .v1 .live]) 1 1 := by
  refine .inr ⟨sampleCancelFrame, 10, .cancel sampleEpoch 1 .superseded, rfl,
    by decide +kernel, rfl, ?_⟩
  have hanswer : ((PoolRun.after wireCodec samplePool
      [.addReceiver sampleEpoch .v1 .live]).pool.offerTransfer wireCodec 1 sampleCancelFrame 10).1 =
      .ok (.cancelled false) := by
    decide +kernel
  rw [hanswer]
  exact trivial

/-- A later header of a transfer that was cancelled is stale. -/
theorem transfers_used_once_cancelled : ReassemblyPool.new TransferLimits.v1 = .ok samplePool ∧
      ((PoolRun.after wireCodec samplePool [.addReceiver sampleEpoch .v1 .live,
        .offerTransfer 1 sampleCancelFrame 10]).pool.offerTransfer wireCodec 1 sampleBeginFrame
          11).1 = .error .staleTransfer := by
  refine ⟨rfl, ?_⟩
  exact ((transfers_used_once wireCodec TransferLimits.v1 samplePool rfl).2.2.1
    [.addReceiver sampleEpoch .v1 .live] _ [] 1 1 ends_sampleCancelFrame).2 _ sampleBeginFrame 11
      (.begin ⟨sampleEpoch, 1, 9, 4, 2, 0, 1, 1⟩) rfl (by decide +kernel) (by decide +kernel) rfl

/-- A cancellation of a transfer that was cancelled before is acknowledged, not refused. -/
theorem cancelled_again :
    ¬∀ (codec : Codec) (pool : ReassemblyPool) (first rest : List PoolOp) (op : PoolOp)
      (id : ReceiverId) (transfer : TransferId) (receiver : Receiver) (bytes : List UInt8)
      (nowMs : ℕ) (message : TransferDown), ReassemblyPool.new TransferLimits.v1 = .ok pool →
      op.Ends codec (PoolRun.after codec pool first) id transfer →
      (PoolRun.after codec pool (first ++ op :: rest)).pool.receivers.get? id = some receiver →
      codec.decodeDown bytes = .ok message → message.epoch = receiver.epoch →
      message.transfer = transfer →
      ((PoolRun.after codec pool (first ++ op :: rest)).pool.offerTransfer codec id bytes
          nowMs).1 = .error .staleTransfer ∨
        ((PoolRun.after codec pool (first ++ op :: rest)).pool.offerTransfer codec id bytes
          nowMs).1 = .error (.failed .expired) := by
  intro hclaim
  have hanswer := hclaim wireCodec samplePool [.addReceiver sampleEpoch .v1 .live] []
    (.offerTransfer 1 sampleCancelFrame 10) 1 1 _ sampleCancelFrame 11
    (.cancel sampleEpoch 1 .superseded) rfl ends_sampleCancelFrame rfl (by decide +kernel)
    (by decide +kernel) rfl
  have hacknowledged : ((PoolRun.after wireCodec samplePool
      [.addReceiver sampleEpoch .v1 .live, .offerTransfer 1 sampleCancelFrame
        10]).pool.offerTransfer wireCodec 1 sampleCancelFrame 11).1 = .ok (.cancelled false) := by
    decide +kernel
  rcases hanswer with hanswer | hanswer
  · exact nomatch hacknowledged.symm.trans hanswer
  · exact nomatch hacknowledged.symm.trans hanswer

end PoolRun

end Crpg.Net
