import Crpg.Net.Reassembly

/-!
# The pool's byte accounting is exact

`crpg-net/src/reassembly.rs`. A pool keeps two byte counters for all receivers and two for each
receiver, moved by about ten paths with saturating arithmetic, where a double release would be
silent. This module proves that every counter is the total it stands for, that no subtraction ever
saturates, and that the configured limits hold, over every run of pool operations.

`Receiver.Accounted` is the part of the invariant one receiver owes: its held bytes are those of
the held deltas, its queue and the lengths beside it match entry by entry, a delta's length is that
of the bytes it was decoded from, and the bytes reserved for a transfer are those of its buffer.
`Focus.Accounted` adds the two pool counters, each split into what the other receivers own and what
this one does; one lemma for each operation on a focus keeps it. `ReassemblyPool.Accounted` is the
invariant of the pool, and `accounted_store` carries it from a focus to the pool.
-/

set_option autoImplicit false

namespace Crpg.Net

open Crpg.Core Crpg.Lib
open BTreeMap (size_eq_sum sum_congr)

/-! ### The invariant -/

def Receiver.reserved (receiver : Receiver) : ℕ :=
  (receiver.inFlight.map InFlightTransfer.reservedBytes).getD 0

def Receiver.deltaBytes (receiver : Receiver) : ℕ :=
  receiver.heldBytes.value + receiver.queuedBytes.value

def QueuedLen (codec : Codec) (wire : DeltaWire) : ReplicaUpdate → ℕ → Prop
  | .snapshot _, len => len = 0
  | .delta gated, len => ∃ bytes, codec.decodeDelta wire bytes = .ok gated ∧ len = bytes.length

/-- A held delta sits under its own sequence, decoded from the bytes kept with it. -/
structure HeldDelta.Coherent (codec : Codec) (wire : DeltaWire) (seq : ℕ) (delta : HeldDelta) :
    Prop where
  decoded : codec.decodeDelta wire delta.bytes = .ok delta.gated
  encodedLen : delta.encodedLen = delta.bytes.length
  eventSeq : delta.gated.eventSeq = seq

structure InFlightTransfer.Coherent (limits : TransferLimits) (inFlight : InFlightTransfer) :
    Prop where
  header : inFlight.assembly.header = inFlight.header
  valid : inFlight.header.validate = .ok ()
  buffer : inFlight.assembly.buffer.length = inFlight.header.totalBytes
  reserved : inFlight.reservedBytes = inFlight.header.totalBytes
  reserved_le : inFlight.reservedBytes ≤ limits.stagingBytesPerReceiver

structure Receiver.Accounted (codec : Codec) (limits : TransferLimits) (receiver : Receiver) :
    Prop where
  held : ∀ seq delta, receiver.held.get? seq = some delta → delta.Coherent codec receiver.wire seq
  heldBytes : receiver.heldBytes.Exact (receiver.held.sum HeldDelta.encodedLen)
  queued : List.Forall₂ (QueuedLen codec receiver.wire) receiver.queued receiver.queuedLens
  queuedBytes : receiver.queuedBytes.Exact receiver.queuedLens.sum
  inFlight : ∀ inFlight, receiver.inFlight = some inFlight → inFlight.Coherent limits
  bytes_le : receiver.deltaBytes ≤ limits.deltaBytesPerReceiver
  frames_le : receiver.held.size + receiver.queuedDeltas ≤ limits.deltaFramesPerReceiver

/-- What a focus owes the accounting, next to what the other receivers own. -/
structure Focus.Accounted (codec : Codec) (limits : TransferLimits) (staging delta : ℕ)
    (focus : Focus) : Prop where
  receiver : focus.receiver.Accounted codec limits
  stagingBytes : focus.stagingBytes.Exact (staging + focus.receiver.reserved)
  heldDeltaBytes : focus.heldDeltaBytes.Exact (delta + focus.receiver.deltaBytes)
  staging_le : staging + focus.receiver.reserved ≤ limits.stagingBytesTotal
  delta_le : delta + focus.receiver.deltaBytes ≤ limits.deltaBytesTotal

structure ReassemblyPool.Accounted (codec : Codec) (pool : ReassemblyPool) : Prop where
  receiver : ∀ id receiver, pool.receivers.get? id = some receiver →
    receiver.Accounted codec pool.limits
  stagingBytes : pool.stagingBytes.Exact (pool.receivers.sum Receiver.reserved)
  heldDeltaBytes : pool.heldDeltaBytes.Exact (pool.receivers.sum Receiver.deltaBytes)
  staging_le : pool.receivers.sum Receiver.reserved ≤ pool.limits.stagingBytesTotal
  delta_le : pool.receivers.sum Receiver.deltaBytes ≤ pool.limits.deltaBytesTotal
  receivers_le : pool.receivers.size ≤ pool.limits.maxReceivers
  issued : ∀ id receiver, pool.receivers.get? id = some receiver → id ≤ pool.receiverCounter

/-! ### One transfer keeps its buffer -/

/-- A chunk of the expected length lies inside the buffer. -/
theorem BeginTransfer.chunkLen_le {begin : BeginTransfer} {index len : ℕ}
    (hlen : begin.chunkLen index = some len) :
    index * begin.chunkSize + len ≤ begin.totalBytes := by
  unfold BeginTransfer.chunkLen at hlen
  split at hlen
  · cases hlen
  · cases hvalid : begin.validate with
    | error defect =>
      rw [hvalid] at hlen
      cases hlen
    | ok _ =>
      simp only [hvalid] at hlen
      split_ifs at hlen with hstart
      rw [Option.some.injEq] at hlen
      omega

theorem TransferAssembly.length_splice {buffer bytes : List UInt8} {start : ℕ}
    (hfits : start + bytes.length ≤ buffer.length) :
    (splice buffer start bytes).length = buffer.length := by
  simp only [splice, List.length_append, List.length_take, List.length_drop]
  omega

theorem TransferAssembly.accept_spec {assembly next : TransferAssembly} {chunk : TransferChunk}
    {outcome : ChunkOutcome} (hbuffer : assembly.buffer.length = assembly.header.totalBytes)
    (haccept : assembly.accept chunk = .ok (outcome, next)) :
    next.header = assembly.header ∧ next.buffer.length = assembly.buffer.length := by
  unfold accept at haccept
  by_cases hwrong : chunk.epoch ≠ assembly.header.epoch ∨
    chunk.transfer ≠ assembly.header.transfer
  · rw [if_pos hwrong] at haccept
    cases haccept
  · rw [if_neg hwrong] at haccept
    by_cases hrange : assembly.header.chunkCount ≤ chunk.index
    · rw [if_pos hrange] at haccept
      cases haccept
    · rw [if_neg hrange] at haccept
      cases hexpected : assembly.header.chunkLen chunk.index with
      | none =>
        rw [hexpected] at haccept
        cases haccept
      | some expected =>
        have hfits := BeginTransfer.chunkLen_le hexpected
        simp only [hexpected] at haccept
        split_ifs at haccept with hlen hbit hsame hdone
        · cases haccept
          exact ⟨rfl, rfl⟩
        all_goals
          cases haccept
          exact ⟨rfl, length_splice (by omega)⟩

/-! ### Operations on a focus keep the accounting -/

section Focus

variable {codec : Codec} {limits : TransferLimits} {staging delta : ℕ} {focus : Focus}

section

variable (hfocus : focus.Accounted codec limits staging delta)
include hfocus

/-- Assumes: an accounted focus with a transfer in flight. Discarding it keeps the accounting. -/
theorem Focus.Accounted.discard {inFlight : InFlightTransfer}
    (hinFlight : focus.receiver.inFlight = some inFlight) (through : ℕ) :
    (focus.discard inFlight through).Accounted codec limits staging delta := by
  have hstaging := hfocus.stagingBytes
  have hbound := hfocus.staging_le
  simp only [Receiver.reserved, hinFlight, Option.map_some, Option.getD_some] at hstaging hbound
  refine ⟨⟨hfocus.receiver.held, hfocus.receiver.heldBytes, hfocus.receiver.queued,
    hfocus.receiver.queuedBytes, fun _ hother ↦ (Option.some_ne_none _ hother.symm).elim,
    hfocus.receiver.bytes_le, hfocus.receiver.frames_le⟩, ?_, hfocus.heldDeltaBytes, ?_,
    hfocus.delta_le⟩
  · exact hstaging.saturatingSub rfl
  · exact le_trans (Nat.add_le_add_left (Nat.zero_le _) staging) hbound

/-- Waiting for a snapshot keeps the accounting. -/
theorem Focus.Accounted.await (resync : Option ResyncReason) :
    (focus.await resync).Accounted codec limits staging delta :=
  ⟨⟨hfocus.receiver.held, hfocus.receiver.heldBytes, hfocus.receiver.queued,
    hfocus.receiver.queuedBytes, hfocus.receiver.inFlight, hfocus.receiver.bytes_le,
    hfocus.receiver.frames_le⟩, hfocus.stagingBytes, hfocus.heldDeltaBytes, hfocus.staging_le,
    hfocus.delta_le⟩

theorem Focus.Accounted.dropHeld : focus.dropHeld.Accounted codec limits staging delta := by
  have hheld := hfocus.heldDeltaBytes
  have hbytes := hfocus.receiver.bytes_le
  have hframes := hfocus.receiver.frames_le
  have hdelta := hfocus.delta_le
  have hafter : focus.dropHeld.receiver.deltaBytes = focus.receiver.queuedBytes.value :=
    Nat.zero_add _
  unfold Receiver.deltaBytes at hheld hbytes hdelta
  refine ⟨⟨?_, hfocus.receiver.heldBytes.reset, hfocus.receiver.queued,
    hfocus.receiver.queuedBytes, hfocus.receiver.inFlight, ?_, ?_⟩, hfocus.stagingBytes, ?_,
    hfocus.staging_le, ?_⟩
  · intro seq held hget
    cases hget
  · rw [hafter]
    omega
  · exact le_trans (Nat.add_le_add_right (Nat.zero_le _) _) hframes
  · rw [hafter]
    exact hheld.saturatingSub (by omega)
  · rw [hafter]
    omega

theorem Focus.Accounted.discardInFlight :
    focus.discardInFlight.Accounted codec limits staging delta := by
  unfold Focus.discardInFlight
  split
  next inFlight hinFlight => exact hfocus.discard hinFlight _
  next => exact hfocus

theorem Focus.Accounted.failInFlight (reason : FailReason) :
    (focus.failInFlight reason).Accounted codec limits staging delta := by
  have hfailed := (hfocus.discardInFlight).await (some reason.resyncReason)
  unfold Focus.failInFlight
  simp only
  split_ifs
  · exact hfailed.dropHeld
  · exact hfailed

theorem Focus.Accounted.clearStaleQueue :
    focus.clearStaleQueue.Accounted codec limits staging delta := by
  unfold Focus.clearStaleQueue
  split
  · have hheld := hfocus.heldDeltaBytes
    have hbytes := hfocus.receiver.bytes_le
    have hdelta := hfocus.delta_le
    unfold Receiver.deltaBytes at hheld hbytes hdelta
    refine ⟨⟨hfocus.receiver.held, hfocus.receiver.heldBytes, .nil,
      hfocus.receiver.queuedBytes.reset, hfocus.receiver.inFlight, ?_, ?_⟩, hfocus.stagingBytes,
      ?_, hfocus.staging_le, ?_⟩
    · change focus.receiver.heldBytes.value + 0 ≤ _
      omega
    · exact le_trans (Nat.add_le_add_left (Nat.zero_le _) _) hfocus.receiver.frames_le
    · refine hheld.saturatingSub ?_
      change delta + (focus.receiver.heldBytes.value + 0) + _ = _
      omega
    · change delta + (focus.receiver.heldBytes.value + 0) ≤ _
      omega
  · exact hfocus

end

/-- Forgetting held deltas one by one takes their bytes off both counters and changes nothing
else. -/
theorem Focus.foldl_forgetHeld (covered : List (ℕ × HeldDelta)) (focus : Focus) {held : ℕ}
    (total : ℕ) (hheld : focus.receiver.heldBytes.Exact
      (held + (covered.map fun entry ↦ entry.2.encodedLen).sum))
    (htotal : focus.heldDeltaBytes.Exact
      (total + (covered.map fun entry ↦ entry.2.encodedLen).sum)) :
    ∃ heldBytes heldDeltaBytes, heldBytes.Exact held ∧ heldDeltaBytes.Exact total ∧
      covered.foldl (fun focus entry ↦ focus.forgetHeld entry.2) focus = { focus with
          receiver := { focus.receiver with heldBytes := heldBytes }
          heldDeltaBytes := heldDeltaBytes } := by
  induction covered generalizing focus with
  | nil => exact ⟨_, _, hheld, htotal, rfl⟩
  | cons entry rest ih =>
    simp only [List.map_cons, List.sum_cons] at hheld htotal
    obtain ⟨heldBytes, heldDeltaBytes, hafter, hdelta, hfold⟩ :=
      ih (focus.forgetHeld entry.2) (hheld.saturatingSub (by omega))
        (htotal.saturatingSub (by omega))
    exact ⟨heldBytes, heldDeltaBytes, hafter, hdelta, hfold⟩

theorem Focus.Accounted.dropCovered (hfocus : focus.Accounted codec limits staging delta)
    (cursor : ℕ) : (focus.dropCovered cursor).Accounted codec limits staging delta := by
  have hsplit := focus.receiver.held.sum_filter_add (fun seq _ ↦ decide (seq ≤ cursor))
    HeldDelta.encodedLen
  have hsizes := focus.receiver.held.sum_filter_add (fun seq _ ↦ decide (seq ≤ cursor))
    fun _ ↦ 1
  rw [← size_eq_sum, ← size_eq_sum] at hsizes
  have hvalue := hfocus.receiver.heldBytes.value
  have hheld := hfocus.heldDeltaBytes
  have hbytes := hfocus.receiver.bytes_le
  have hframes := hfocus.receiver.frames_le
  have hdelta := hfocus.delta_le
  unfold Receiver.deltaBytes at hheld hbytes hdelta
  obtain ⟨heldBytes, heldDeltaBytes, hafter, htotal, hfold⟩ :=
    Focus.foldl_forgetHeld (focus.receiver.held.entries.filter fun entry ↦ entry.1 ≤ cursor) focus
      (delta + ((focus.receiver.held.filter fun seq _ ↦ !decide (seq ≤ cursor)).sum
        HeldDelta.encodedLen + focus.receiver.queuedBytes.value))
      (hfocus.receiver.heldBytes.congr hsplit) (hheld.congr (by omega))
  have hkept := hafter.value
  unfold Focus.dropCovered
  simp only [hfold]
  refine ⟨⟨fun seq kept hget ↦ ?_, hafter, hfocus.receiver.queued, hfocus.receiver.queuedBytes,
    hfocus.receiver.inFlight, ?_, ?_⟩, hfocus.stagingBytes, ?_, hfocus.staging_le, ?_⟩
  · rw [BTreeMap.get?_filter, Option.filter_eq_some_iff] at hget
    exact hfocus.receiver.held seq kept hget.1
  · change heldBytes.value + focus.receiver.queuedBytes.value ≤ _
    omega
  · change (focus.receiver.held.filter fun seq _ ↦ !decide (seq ≤ cursor)).size +
      focus.receiver.queuedDeltas ≤ _
    omega
  · exact htotal.congr (by unfold Receiver.deltaBytes; rw [hkept])
  · change delta + (heldBytes.value + focus.receiver.queuedBytes.value) ≤ _
    omega

theorem Focus.queuedDeltas_enqueue (focus : Focus) (update : ReplicaUpdate) (len : ℕ) :
    (focus.enqueue update len).receiver.queuedDeltas =
      focus.receiver.queuedDeltas + if update.isSnapshot then 0 else 1 := by
  unfold Receiver.queuedDeltas Focus.enqueue
  cases hsnapshot : update.isSnapshot <;> simp [List.filter_append, hsnapshot]

section

variable (hfocus : focus.Accounted codec limits staging delta)
include hfocus

theorem Focus.Accounted.enqueue (update : ReplicaUpdate) {len : ℕ}
    (hlen : QueuedLen codec focus.receiver.wire update len)
    (hbytes : focus.receiver.deltaBytes + len ≤ limits.deltaBytesPerReceiver)
    (hframes : focus.receiver.held.size + focus.receiver.queuedDeltas +
      (if update.isSnapshot then 0 else 1) ≤ limits.deltaFramesPerReceiver)
    (htotal : delta + focus.receiver.deltaBytes + len ≤ limits.deltaBytesTotal) :
    (focus.enqueue update len).Accounted codec limits staging delta := by
  have hafter : (focus.enqueue update len).receiver.deltaBytes =
      focus.receiver.deltaBytes + len := (Nat.add_assoc _ _ _).symm
  refine ⟨⟨hfocus.receiver.held, hfocus.receiver.heldBytes,
    List.rel_append hfocus.receiver.queued (.cons hlen .nil),
    hfocus.receiver.queuedBytes.add (by simp [Focus.enqueue]), hfocus.receiver.inFlight, ?_, ?_⟩,
    hfocus.stagingBytes, ?_, hfocus.staging_le, ?_⟩
  · rwa [hafter]
  · rw [focus.queuedDeltas_enqueue]
    change focus.receiver.held.size + _ ≤ _
    omega
  · rw [hafter]
    exact hfocus.heldDeltaBytes.add (by omega)
  · rw [hafter]
    omega

theorem Focus.Accounted.expect (seq : ℕ) : Focus.Accounted codec limits staging delta
      { focus with receiver := { focus.receiver with nextEventSeq := seq } } :=
  ⟨⟨hfocus.receiver.held, hfocus.receiver.heldBytes, hfocus.receiver.queued,
    hfocus.receiver.queuedBytes, hfocus.receiver.inFlight, hfocus.receiver.bytes_le,
    hfocus.receiver.frames_le⟩, hfocus.stagingBytes, hfocus.heldDeltaBytes, hfocus.staging_le,
    hfocus.delta_le⟩

/-- Taking one held delta out keeps the accounting and makes room for its bytes and its frame. -/
theorem Focus.Accounted.take {seq : ℕ} {held : HeldDelta}
    (hheld : focus.receiver.held.get? seq = some held) : let taken := Focus.forgetHeld { focus with
      receiver := { focus.receiver with held := focus.receiver.held.erase seq } } held
    taken.Accounted codec limits staging delta ∧
      taken.receiver.deltaBytes + held.encodedLen = focus.receiver.deltaBytes ∧
      taken.receiver.held.size + 1 = focus.receiver.held.size := by
  have hsum := focus.receiver.held.sum_erase hheld HeldDelta.encodedLen
  have hsize := focus.receiver.held.sum_erase hheld fun _ ↦ 1
  rw [← size_eq_sum, ← size_eq_sum] at hsize
  have hvalue := hfocus.receiver.heldBytes.value
  have hbytes := hfocus.receiver.bytes_le
  have hframes := hfocus.receiver.frames_le
  have hdelta := hfocus.delta_le
  have hafter := hfocus.receiver.heldBytes.saturatingSub hsum
  have hkept := hafter.value
  have hcount : (focus.receiver.heldBytes.saturatingSub held.encodedLen).value +
      focus.receiver.queuedBytes.value + held.encodedLen = focus.receiver.deltaBytes := by
    unfold Receiver.deltaBytes
    omega
  refine ⟨⟨⟨fun other kept hget ↦ ?_, hafter, hfocus.receiver.queued,
    hfocus.receiver.queuedBytes, hfocus.receiver.inFlight, ?_, ?_⟩, hfocus.stagingBytes, ?_,
    hfocus.staging_le, ?_⟩, hcount, hsize⟩
  · simp only [Focus.forgetHeld, BTreeMap.get?_erase] at hget
    split_ifs at hget
    exact hfocus.receiver.held other kept hget
  · change (focus.receiver.heldBytes.saturatingSub held.encodedLen).value +
      focus.receiver.queuedBytes.value ≤ _
    omega
  · change (focus.receiver.held.erase seq).size + focus.receiver.queuedDeltas ≤ _
    omega
  · refine hfocus.heldDeltaBytes.saturatingSub ?_
    rw [← hcount]
    exact Nat.add_assoc _ _ _
  · change delta + ((focus.receiver.heldBytes.saturatingSub held.encodedLen).value +
      focus.receiver.queuedBytes.value) ≤ _
    omega

theorem Focus.Accounted.release {seq : ℕ} {held : HeldDelta}
    (hheld : focus.receiver.held.get? seq = some held) :
    (focus.release seq held).Accounted codec limits staging delta := by
  obtain ⟨htaken, hbytes, hframes⟩ := hfocus.take hheld
  have hcoherent := hfocus.receiver.held seq held hheld
  refine (htaken.enqueue (.delta held.gated) ⟨held.bytes, hcoherent.decoded,
    hcoherent.encodedLen⟩ ?_ ?_ ?_).expect (seq + 1)
  · rw [hbytes]
    exact hfocus.receiver.bytes_le
  · have hbefore := hfocus.receiver.frames_le
    change _ + focus.receiver.queuedDeltas + 1 ≤ _
    omega
  · rw [Nat.add_assoc, hbytes]
    exact hfocus.delta_le

end

theorem Focus.Accounted.drain (gate : Receiver → ℕ → Bool) (fuel : ℕ) {focus : Focus}
    (hfocus : focus.Accounted codec limits staging delta) :
    (focus.drain gate fuel).2.Accounted codec limits staging delta := by
  induction fuel generalizing focus with
  | zero => exact hfocus
  | succ fuel ih =>
    unfold Focus.drain
    simp only
    split
    · split
      next held hheld => exact ih (hfocus.release hheld)
      next => exact hfocus
    · exact hfocus

section

variable (hfocus : focus.Accounted codec limits staging delta)
include hfocus

variable {inFlight : InFlightTransfer}

theorem Focus.Accounted.failBody (hinFlight : focus.receiver.inFlight = some inFlight)
    (defect : CodecError) :
    (focus.failBody inFlight defect).2.Accounted codec limits staging delta :=
  (hfocus.discard hinFlight _).await _

theorem Focus.Accounted.cutover (hinFlight : focus.receiver.inFlight = some inFlight)
    (body : SnapshotBody) :
    (focus.cutover inFlight body).2.Accounted codec limits staging delta := by
  have hkept := ((hfocus.discard hinFlight inFlight.header.transfer).clearStaleQueue).dropCovered
    inFlight.header.cursor
  unfold Focus.cutover
  simp only
  refine Focus.Accounted.drain _ _ (Focus.Accounted.enqueue ?_ _ rfl ?_ ?_ ?_)
  · exact ⟨⟨hkept.receiver.held, hkept.receiver.heldBytes, hkept.receiver.queued,
      hkept.receiver.queuedBytes, hkept.receiver.inFlight, hkept.receiver.bytes_le,
      hkept.receiver.frames_le⟩, hkept.stagingBytes, hkept.heldDeltaBytes, hkept.staging_le,
      hkept.delta_le⟩
  · exact hkept.receiver.bytes_le
  · exact hkept.receiver.frames_le
  · exact hkept.delta_le

theorem Focus.Accounted.publish (hinFlight : focus.receiver.inFlight = some inFlight) :
    (focus.publish codec inFlight).2.Accounted codec limits staging delta := by
  unfold Focus.publish
  split
  · exact hfocus
  · split
    · exact hfocus.failBody hinFlight _
    · split
      · exact hfocus.failBody hinFlight _
      · exact hfocus.cutover hinFlight _

theorem Focus.Accounted.handleChunk (chunk : TransferChunk) :
    (focus.handleChunk codec chunk).2.Accounted codec limits staging delta := by
  have hstray : (if (chunk.transfer : ℕ) ≤ focus.receiver.retiredThrough then
      ((.error .staleTransfer, focus) : Except TransferError TransferOutcome × Focus)
      else (.error .unknownTransfer, focus)).2.Accounted codec limits staging delta := by
    split <;> exact hfocus
  unfold Focus.handleChunk
  simp only
  split
  next => exact hstray
  next inFlight hinFlight =>
    split
    · split
      next => exact hfocus.failInFlight .conflict
      next outcome assembly haccept =>
        have hcoherent := hfocus.receiver.inFlight inFlight hinFlight
        have hspec := TransferAssembly.accept_spec
          (hcoherent.buffer.trans (congrArg _ hcoherent.header.symm)) haccept
        have hreserved : focus.receiver.reserved = inFlight.reservedBytes := by
          simp only [Receiver.reserved, hinFlight, Option.map_some, Option.getD_some]
        have hstored : Focus.Accounted codec limits staging delta
            { focus with receiver := { focus.receiver with
                inFlight := some { inFlight with assembly } } } := by
          refine ⟨⟨hfocus.receiver.held, hfocus.receiver.heldBytes, hfocus.receiver.queued,
            hfocus.receiver.queuedBytes, ?_, hfocus.receiver.bytes_le,
            hfocus.receiver.frames_le⟩, hreserved ▸ hfocus.stagingBytes, hfocus.heldDeltaBytes,
            hreserved ▸ hfocus.staging_le, hfocus.delta_le⟩
          intro stored hstored
          rw [Option.some.injEq] at hstored
          subst hstored
          exact ⟨hspec.1.trans hcoherent.header, hcoherent.valid,
            hspec.2.trans hcoherent.buffer, hcoherent.reserved, hcoherent.reserved_le⟩
        split
        · exact hstored
        · exact hstored
        · exact hstored.publish rfl
    · exact hstray

theorem Focus.Accounted.handleBegin (header : BeginTransfer) (nowMs : ℕ) :
    (focus.handleBegin limits header nowMs).2.Accounted codec limits staging delta := by
  unfold Focus.handleBegin
  split
  next =>
    split_ifs
    · exact hfocus
    · exact hfocus.failInFlight .conflict
    · exact hfocus
    · exact hfocus
  next hidle =>
    have hreserved : focus.receiver.reserved = 0 := by
      simp only [Receiver.reserved, hidle, Option.map_none, Option.getD_none]
    have hvalue := hfocus.stagingBytes.value
    by_cases hstale : (header.transfer : ℕ) ≤ focus.receiver.retiredThrough
    · rw [if_pos hstale]
      exact hfocus
    · rw [if_neg hstale]
      split
      · exact hfocus
      · split
        · exact hfocus
        · next hper =>
          split
          · exact hfocus
          · next htotal =>
            unfold TransferAssembly.new
            cases hvalid : header.validate with
            | error defect => exact hfocus
            | ok _ =>
              refine ⟨⟨hfocus.receiver.held, hfocus.receiver.heldBytes, hfocus.receiver.queued,
                hfocus.receiver.queuedBytes, ?_, hfocus.receiver.bytes_le,
                hfocus.receiver.frames_le⟩, ?_, hfocus.heldDeltaBytes, ?_, hfocus.delta_le⟩
              · intro inFlight hinFlight
                simp only [Option.some.injEq] at hinFlight
                subst hinFlight
                exact ⟨rfl, hvalid, List.length_replicate, rfl, not_lt.mp hper⟩
              · refine hfocus.stagingBytes.add ?_
                rw [hreserved]
                rfl
              · change staging + header.totalBytes ≤ _
                omega

theorem Focus.Accounted.handleCancel (transfer : TransferId) :
    (focus.handleCancel transfer).2.Accounted codec limits staging delta := by
  unfold Focus.handleCancel
  split
  next inFlight hinFlight =>
    rw [Option.filter_eq_some_iff] at hinFlight
    exact (hfocus.discard hinFlight.1 _).await _
  next =>
    exact ⟨⟨hfocus.receiver.held, hfocus.receiver.heldBytes, hfocus.receiver.queued,
      hfocus.receiver.queuedBytes, hfocus.receiver.inFlight, hfocus.receiver.bytes_le,
      hfocus.receiver.frames_le⟩, hfocus.stagingBytes, hfocus.heldDeltaBytes, hfocus.staging_le,
      hfocus.delta_le⟩

theorem Focus.Accounted.offerDelta (bytes : List UInt8) :
    (focus.offerDelta codec limits bytes).2.Accounted codec limits staging delta := by
  unfold Focus.offerDelta
  split
  next => exact hfocus
  next gated hdecoded =>
    simp only
    by_cases hrange : gated.eventSeq = 0 ∨ seqLast < gated.eventSeq
    · rw [if_pos hrange]
      exact hfocus
    · rw [if_neg hrange]
      by_cases hold : gated.eventSeq < focus.receiver.nextEventSeq
      · rw [if_pos hold]
        exact hfocus
      · rw [if_neg hold]
        split
        next held hheld =>
          split
          · exact hfocus
          · exact hfocus.failInFlight .conflict
        next hfresh =>
          split
          · exact hfocus.failInFlight .overflow
          next hroom =>
            rw [not_or, not_or, not_lt, not_lt, not_lt] at hroom
            obtain ⟨hframes, hbytes, htotal⟩ := hroom
            rw [hfocus.heldDeltaBytes.value] at htotal
            split
            · exact ((hfocus.enqueue (.delta gated) ⟨bytes, hdecoded, rfl⟩ hbytes hframes
                htotal).expect _).drain _ _
            · have hcount := focus.receiver.held.sum_insert_of_fresh hfresh
                ⟨gated, bytes.length, bytes⟩ HeldDelta.encodedLen
              have hsize := focus.receiver.held.sum_insert_of_fresh hfresh
                ⟨gated, bytes.length, bytes⟩ fun _ ↦ 1
              rw [← size_eq_sum, ← size_eq_sum] at hsize
              have hafter : (focus.hold gated bytes).2.receiver.deltaBytes =
                  focus.receiver.deltaBytes + bytes.length := by
                simp only [Focus.hold, Receiver.deltaBytes, Counter.add]
                omega
              refine ⟨⟨fun seq held hget ↦ ?_, hfocus.receiver.heldBytes.add hcount,
                hfocus.receiver.queued, hfocus.receiver.queuedBytes, hfocus.receiver.inFlight, ?_,
                ?_⟩, hfocus.stagingBytes, ?_, hfocus.staging_le, ?_⟩
              · simp only [Focus.hold, BTreeMap.get?_insert] at hget
                split_ifs at hget with hseq
                · rw [Option.some.injEq] at hget
                  subst hget
                  exact ⟨hdecoded, rfl, hseq.symm⟩
                · exact hfocus.receiver.held seq held hget
              · rw [hafter]
                exact hbytes
              · change (focus.receiver.held.insert _ _).size + focus.receiver.queuedDeltas ≤ _
                omega
              · rw [hafter]
                exact hfocus.heldDeltaBytes.add (by omega)
              · rw [hafter]
                omega

theorem Focus.Accounted.popUpdate : focus.popUpdate.2.Accounted codec limits staging delta := by
  unfold Focus.popUpdate
  split
  next => exact hfocus
  next update queued hqueued =>
    have hlens := hfocus.receiver.queued
    rw [hqueued] at hlens
    cases hshape : focus.receiver.queuedLens with
    | nil =>
      rw [hshape] at hlens
      cases hlens
    | cons len lens =>
      rw [hshape] at hlens
      obtain ⟨hlen, hrest⟩ := List.forall₂_cons.mp hlens
      have hsum := hfocus.receiver.queuedBytes
      rw [hshape, List.sum_cons] at hsum
      have hafter := hsum.saturatingSub (Nat.add_comm lens.sum len)
      have hvalue := hsum.value
      have hpopped := hafter.value
      have hheld := hfocus.heldDeltaBytes
      have hbytes := hfocus.receiver.bytes_le
      have hframes := hfocus.receiver.frames_le
      have hdelta := hfocus.delta_le
      unfold Receiver.deltaBytes at hheld hbytes hdelta
      unfold Receiver.queuedDeltas at hframes
      rw [hqueued] at hframes
      have hfewer : (queued.filter fun update ↦ !update.isSnapshot).length ≤
          ((update :: queued).filter fun update ↦ !update.isSnapshot).length :=
        ((List.sublist_cons_self update queued).filter _).length_le
      simp only [List.headD_cons, List.tail_cons]
      refine ⟨⟨hfocus.receiver.held, hfocus.receiver.heldBytes, hrest, hafter,
        hfocus.receiver.inFlight, ?_, ?_⟩, hfocus.stagingBytes, ?_, hfocus.staging_le, ?_⟩
      · change focus.receiver.heldBytes.value +
          (focus.receiver.queuedBytes.saturatingSub len).value ≤ _
        omega
      · exact le_trans (Nat.add_le_add_left hfewer _) hframes
      · refine hheld.saturatingSub ?_
        change delta + (focus.receiver.heldBytes.value +
          (focus.receiver.queuedBytes.saturatingSub len).value) + len = _
        omega
      · change delta + (focus.receiver.heldBytes.value +
          (focus.receiver.queuedBytes.saturatingSub len).value) ≤ _
        omega

theorem Focus.Accounted.rebind : focus.rebind.2.Accounted codec limits staging delta :=
  (hfocus.discardInFlight.dropHeld).await none

end

end Focus

/-! ### Operations of the pool keep the accounting -/

namespace ReassemblyPool

variable {codec : Codec} {pool : ReassemblyPool}

section

variable (hpool : pool.Accounted codec)
include hpool

theorem Accounted.focus {id : ReceiverId} {receiver : Receiver}
    (hreceiver : pool.receivers.get? id = some receiver) :
    (pool.focus receiver).Accounted codec pool.limits
      ((pool.receivers.erase id).sum Receiver.reserved)
      ((pool.receivers.erase id).sum Receiver.deltaBytes) := by
  have hstaging := pool.receivers.sum_erase hreceiver Receiver.reserved
  have hdelta := pool.receivers.sum_erase hreceiver Receiver.deltaBytes
  exact ⟨hpool.receiver id receiver hreceiver, hpool.stagingBytes.congr hstaging,
    hpool.heldDeltaBytes.congr hdelta, hstaging.trans_le hpool.staging_le,
    hdelta.trans_le hpool.delta_le⟩

theorem Accounted.store {id : ReceiverId} {receiver : Receiver}
    (hreceiver : pool.receivers.get? id = some receiver) {focus : Focus}
    (hfocus : focus.Accounted codec pool.limits ((pool.receivers.erase id).sum Receiver.reserved)
      ((pool.receivers.erase id).sum Receiver.deltaBytes)) :
    (pool.store id focus).Accounted codec := by
  have hstaging := pool.receivers.sum_insert_eq id focus.receiver Receiver.reserved
  have hdelta := pool.receivers.sum_insert_eq id focus.receiver Receiver.deltaBytes
  have hsize := pool.receivers.sum_insert_of_get? hreceiver focus.receiver fun _ ↦ 1
  rw [← size_eq_sum, ← size_eq_sum] at hsize
  have hreceivers := hpool.receivers_le
  refine ⟨fun other found hfound ↦ ?_, hfocus.stagingBytes.congr hstaging,
    hfocus.heldDeltaBytes.congr hdelta, hstaging.trans_le hfocus.staging_le,
    hdelta.trans_le hfocus.delta_le, ?_, fun other found hfound ↦ ?_⟩
  · simp only [ReassemblyPool.store, BTreeMap.get?_insert] at hfound
    split_ifs at hfound with hother
    · rw [Option.some.injEq] at hfound
      exact hfound ▸ hfocus.receiver
    · exact hpool.receiver other found hfound
  · change (pool.receivers.insert id focus.receiver).size ≤ _
    exact le_trans (by omega) hreceivers
  · simp only [ReassemblyPool.store, BTreeMap.get?_insert] at hfound
    split_ifs at hfound with hother
    · exact hother ▸ hpool.issued id receiver hreceiver
    · exact hpool.issued other found hfound

theorem Accounted.clock (nowMs : ℕ) : Accounted codec { pool with nowMs } :=
  ⟨hpool.receiver, hpool.stagingBytes, hpool.heldDeltaBytes, hpool.staging_le, hpool.delta_le,
    hpool.receivers_le, hpool.issued⟩

theorem Accounted.sweep (nowMs : ℕ) : (pool.sweep nowMs).2.Accounted codec := by
  unfold ReassemblyPool.sweep
  refine List.foldlRecOn (motive := fun (state : List (ReceiverId × TransferId) × ReassemblyPool) ↦
    state.2.Accounted codec) _ _
    (hpool.clock (max pool.nowMs nowMs)) ?_
  intro state hstate id _
  unfold ReassemblyPool.sweepOne
  split
  · exact hstate
  next receiver hreceiver =>
    split
    · exact hstate
    · split
      · exact hstate.store hreceiver ((hstate.focus hreceiver).failInFlight .expired)
      · exact hstate

theorem Accounted.addReceiver (epoch : SessionEpoch) (wire : DeltaWire) (start : GateMode) :
    (pool.addReceiver epoch wire start).2.Accounted codec := by
  unfold ReassemblyPool.addReceiver
  split
  · exact hpool
  next hroom =>
    split
    · exact hpool
    · have hfresh : pool.receivers.get? (pool.receiverCounter + 1) = none := by
        cases hget : pool.receivers.get? (pool.receiverCounter + 1) with
        | none => rfl
        | some receiver =>
          exact absurd (hpool.issued _ receiver hget) (Nat.not_succ_le_self _)
      have hsum (weight : Receiver → ℕ) := pool.receivers.sum_insert_of_fresh hfresh
        (Receiver.new epoch wire start) weight
      have hsize := hsum fun _ ↦ 1
      rw [← size_eq_sum, ← size_eq_sum] at hsize
      refine ⟨fun other found hfound ↦ ?_, hpool.stagingBytes.congr (hsum _),
        hpool.heldDeltaBytes.congr (hsum _), (hsum _).trans_le hpool.staging_le,
        (hsum _).trans_le hpool.delta_le, ?_, fun other found hfound ↦ ?_⟩
      · simp only [BTreeMap.get?_insert] at hfound
        split_ifs at hfound with hother
        · rw [Option.some.injEq] at hfound
          subst hfound
          exact ⟨fun seq held hheld ↦ (Option.some_ne_none held hheld.symm).elim,
            Counter.exact_zero, .nil, Counter.exact_zero,
            fun inFlight hinFlight ↦ (Option.some_ne_none inFlight hinFlight.symm).elim,
            Nat.zero_le _, Nat.zero_le _⟩
        · exact hpool.receiver other found hfound
      · change (pool.receivers.insert _ _).size ≤ pool.limits.maxReceivers
        omega
      · simp only [BTreeMap.get?_insert] at hfound
        change other ≤ pool.receiverCounter + 1
        split_ifs at hfound with hother
        · exact le_of_eq hother
        · exact Nat.le_succ_of_le (hpool.issued other found hfound)

theorem Accounted.removeReceiver (id : ReceiverId) : (pool.removeReceiver id).Accounted codec := by
  unfold ReassemblyPool.removeReceiver
  split
  · exact hpool
  next receiver hreceiver =>
    have hstaging := pool.receivers.sum_erase hreceiver Receiver.reserved
    have hdelta := pool.receivers.sum_erase hreceiver Receiver.deltaBytes
    have hsize := pool.receivers.sum_erase hreceiver fun _ ↦ 1
    rw [← size_eq_sum, ← size_eq_sum] at hsize
    have hget (other : ReceiverId) (found : Receiver)
        (hfound : (pool.receivers.erase id).get? other = some found) :
        pool.receivers.get? other = some found := by
      rw [BTreeMap.get?_erase] at hfound
      split_ifs at hfound
      exact hfound
    refine ⟨fun other found hfound ↦ hpool.receiver other found (hget other found hfound), ?_,
      hpool.heldDeltaBytes.saturatingSub hdelta, ?_, ?_, ?_,
      fun other found hfound ↦ hpool.issued other found (hget other found hfound)⟩
    · unfold Receiver.reserved at hstaging
      split
      next inFlight hinFlight =>
        rw [hinFlight] at hstaging
        exact hpool.stagingBytes.saturatingSub hstaging
      next hidle =>
        rw [hidle] at hstaging
        exact hpool.stagingBytes.congr hstaging
    · exact le_trans (Nat.le.intro hstaging) hpool.staging_le
    · exact le_trans (Nat.le.intro hdelta) hpool.delta_le
    · change (pool.receivers.erase id).size ≤ pool.limits.maxReceivers
      exact le_trans (by omega) hpool.receivers_le

end

theorem accounted_new {limits : TransferLimits} (hnew : new limits = .ok pool) :
    pool.Accounted codec := by
  unfold new at hnew
  split at hnew
  · cases hnew
  · rw [Except.ok.injEq] at hnew
    subst hnew
    exact ⟨fun _ receiver hget ↦ (Option.some_ne_none receiver hget.symm).elim,
      Counter.exact_zero, Counter.exact_zero, Nat.zero_le _, Nat.zero_le _, Nat.zero_le _,
      fun _ receiver hget ↦ (Option.some_ne_none receiver hget.symm).elim⟩

end ReassemblyPool

theorem PoolRun.accounted_step {codec : Codec} {run : PoolRun}
    (hrun : run.pool.Accounted codec) (op : PoolOp) : (run.step codec op).pool.Accounted codec := by
  cases op with
  | addReceiver epoch wire start =>
    have hadded := hrun.addReceiver epoch wire start
    simp only [PoolRun.step]
    split <;> simp_all
  | removeReceiver id => exact hrun.removeReceiver id
  | rebindReceiver id nowMs =>
    have hswept := hrun.sweep (max nowMs run.pool.nowMs)
    simp only [PoolRun.step, ReassemblyPool.rebindReceiver]
    split
    · exact hswept
    next receiver hreceiver => exact hswept.store hreceiver (hswept.focus hreceiver).rebind
  | offerTransfer id bytes nowMs =>
    have hswept := hrun.sweep (max nowMs run.pool.nowMs)
    simp only [PoolRun.step, ReassemblyPool.offerTransfer]
    split
    · exact hswept
    next receiver hreceiver =>
      have hfocus := hswept.focus hreceiver
      split
      · exact hswept
      next message _ =>
        split
        · exact hswept
        · split
          · exact hswept
          · refine hswept.store hreceiver ?_
            cases message with
            | begin header => exact hfocus.handleBegin header _
            | chunk chunk => exact hfocus.handleChunk chunk
            | cancel _ transfer _ => exact hfocus.handleCancel transfer
  | offerDelta id bytes nowMs =>
    have hswept := hrun.sweep (max nowMs run.pool.nowMs)
    simp only [PoolRun.step, ReassemblyPool.offerDelta]
    split
    · exact hswept
    next receiver hreceiver =>
      exact hswept.store hreceiver ((hswept.focus hreceiver).offerDelta bytes)
  | poll nowMs => exact hrun.sweep (max nowMs run.pool.nowMs)
  | popUpdate id =>
    have hpopped : (run.pool.popUpdate id).2.Accounted codec := by
      unfold ReassemblyPool.popUpdate
      split
      · exact hrun
      next receiver hreceiver =>
        exact hrun.store hreceiver (hrun.focus hreceiver).popUpdate
    simp only [PoolRun.step]
    split <;> simp_all

theorem PoolRun.accounted_after {codec : Codec} {limits : TransferLimits} {pool : ReassemblyPool}
    (hnew : ReassemblyPool.new limits = .ok pool) (ops : List PoolOp) :
    (PoolRun.after codec pool ops).pool.Accounted codec :=
  List.foldlRecOn (motive := fun run : PoolRun ↦ run.pool.Accounted codec) ops _
    (ReassemblyPool.accounted_new hnew) fun _ hrun op _ ↦ PoolRun.accounted_step hrun op

theorem ReassemblyPool.get?_foldl_removeReceiver (ids : List ReceiverId) (pool : ReassemblyPool)
    (id : ReceiverId) : (ids.foldl ReassemblyPool.removeReceiver pool).receivers.get? id =
      if id ∈ ids then none else pool.receivers.get? id := by
  induction ids generalizing pool with
  | nil => simp
  | cons head rest ih =>
    have hremoved : (pool.removeReceiver head).receivers.get? id =
        if id = head then none else pool.receivers.get? id := by
      unfold ReassemblyPool.removeReceiver
      split
      next habsent =>
        split_ifs with hid
        · rw [hid, habsent]
        · rfl
      next => exact pool.receivers.get?_erase head id
    rw [List.foldl_cons, ih, hremoved]
    by_cases hrest : id ∈ rest <;> by_cases hid : id = head <;> simp [hrest, hid]

def Receiver.stagedBytes (receiver : Receiver) : ℕ :=
  (receiver.inFlight.map fun inFlight ↦ inFlight.assembly.buffer.length).getD 0

def Receiver.storedDeltaBytes (receiver : Receiver) : ℕ :=
  receiver.held.sum (fun delta ↦ delta.bytes.length) + receiver.queuedLens.sum

theorem Receiver.Accounted.totals {codec : Codec} {limits : TransferLimits} {receiver : Receiver}
    (hreceiver : receiver.Accounted codec limits) : receiver.reserved = receiver.stagedBytes ∧
      receiver.heldBytes.value = receiver.held.sum (fun delta ↦ delta.bytes.length) ∧
      receiver.deltaBytes = receiver.storedDeltaBytes := by
  have hheld : receiver.heldBytes.value = receiver.held.sum fun delta ↦ delta.bytes.length :=
    hreceiver.heldBytes.value.trans (sum_congr _ fun seq delta hdelta ↦
      (hreceiver.held seq delta hdelta).encodedLen)
  refine ⟨?_, hheld, ?_⟩
  · unfold Receiver.reserved Receiver.stagedBytes
    cases hinFlight : receiver.inFlight with
    | none => rfl
    | some inFlight =>
      have hcoherent := hreceiver.inFlight inFlight hinFlight
      exact hcoherent.reserved.trans hcoherent.buffer.symm
  · unfold Receiver.deltaBytes Receiver.storedDeltaBytes
    rw [hheld, hreceiver.queuedBytes.value]

/-- The accounting of the pool over every run. Assumes: a pool made from limits that pass their own
checks. After any calls, the pool counters are the totals of the buffers, held deltas and queued
updates stored, each receiver's counters are those of its own, a queued update has the length of
the bytes it was decoded from, the limits hold, no subtraction saturated on the way, and removing
every receiver brings both pool counters to zero. -/
theorem PoolRun.accounting_exact (codec : Codec) (limits : TransferLimits) (start : ReassemblyPool)
    (hnew : ReassemblyPool.new limits = .ok start) (ops : List PoolOp) (pool : ReassemblyPool)
    (hpool : pool = (PoolRun.after codec start ops).pool) :
    pool.stagingBytes.value = pool.receivers.sum Receiver.stagedBytes ∧
      pool.heldDeltaBytes.value = pool.receivers.sum Receiver.storedDeltaBytes ∧
      pool.stagingBytes.value ≤ pool.limits.stagingBytesTotal ∧
      pool.heldDeltaBytes.value ≤ pool.limits.deltaBytesTotal ∧
      pool.receivers.size ≤ pool.limits.maxReceivers ∧
      pool.stagingBytes.saturated = false ∧ pool.heldDeltaBytes.saturated = false ∧
      (∀ id receiver, pool.receivers.get? id = some receiver →
        receiver.heldBytes.value = receiver.held.sum (fun delta ↦ delta.bytes.length) ∧
        List.Forall₂ (QueuedLen codec receiver.wire) receiver.queued receiver.queuedLens ∧
        receiver.queuedBytes.value = receiver.queuedLens.sum ∧
        receiver.stagedBytes ≤ pool.limits.stagingBytesPerReceiver ∧
        receiver.storedDeltaBytes ≤ pool.limits.deltaBytesPerReceiver ∧
        receiver.held.size + receiver.queuedDeltas ≤ pool.limits.deltaFramesPerReceiver ∧
        receiver.heldBytes.saturated = false ∧ receiver.queuedBytes.saturated = false) ∧
      ∀ ids : List ReceiverId, (∀ id ∈ pool.receivers.keys, id ∈ ids) →
        (ids.foldl ReassemblyPool.removeReceiver pool).stagingBytes.value = 0 ∧
          (ids.foldl ReassemblyPool.removeReceiver pool).heldDeltaBytes.value = 0 := by
  have haccounted : pool.Accounted codec := hpool ▸ PoolRun.accounted_after hnew ops
  have hstaged : pool.receivers.sum Receiver.reserved = pool.receivers.sum Receiver.stagedBytes :=
    sum_congr _ fun id receiver hget ↦ (haccounted.receiver id receiver hget).totals.1
  have hstored : pool.receivers.sum Receiver.deltaBytes =
      pool.receivers.sum Receiver.storedDeltaBytes :=
    sum_congr _ fun id receiver hget ↦ (haccounted.receiver id receiver hget).totals.2.2
  refine ⟨haccounted.stagingBytes.value.trans hstaged,
    haccounted.heldDeltaBytes.value.trans hstored,
    haccounted.stagingBytes.value.trans_le haccounted.staging_le,
    haccounted.heldDeltaBytes.value.trans_le haccounted.delta_le, haccounted.receivers_le,
    haccounted.stagingBytes.unsaturated, haccounted.heldDeltaBytes.unsaturated, ?_, ?_⟩
  · intro id receiver hget
    have hreceiver := haccounted.receiver id receiver hget
    obtain ⟨hreserved, hheld, hdelta⟩ := hreceiver.totals
    refine ⟨hheld, hreceiver.queued, hreceiver.queuedBytes.value, ?_, hdelta ▸ hreceiver.bytes_le,
      hreceiver.frames_le, hreceiver.heldBytes.unsaturated, hreceiver.queuedBytes.unsaturated⟩
    unfold Receiver.stagedBytes
    cases hinFlight : receiver.inFlight with
    | none => exact Nat.zero_le _
    | some inFlight =>
      have hcoherent := hreceiver.inFlight inFlight hinFlight
      exact (hcoherent.buffer.trans hcoherent.reserved.symm).trans_le hcoherent.reserved_le
  · intro ids hcover
    have hremoved : (ids.foldl ReassemblyPool.removeReceiver pool).Accounted codec :=
      List.foldlRecOn (motive := fun pool : ReassemblyPool ↦ pool.Accounted codec) ids _
        haccounted fun _ hpool id _ ↦ hpool.removeReceiver id
    have hempty : (ids.foldl ReassemblyPool.removeReceiver pool).receivers = .empty := by
      refine BTreeMap.ext_get? fun id ↦ ?_
      rw [ReassemblyPool.get?_foldl_removeReceiver, BTreeMap.get?_empty]
      split_ifs with hid
      · rfl
      · cases hget : pool.receivers.get? id with
        | none => rfl
        | some receiver =>
          exact absurd (hcover id (pool.receivers.mem_keys_iff.mpr ⟨receiver, hget⟩)) hid
    rw [hremoved.stagingBytes.value, hremoved.heldDeltaBytes.value, hempty]
    exact ⟨rfl, rfl⟩

def sampleEpoch : SessionEpoch := Vector.replicate 16 7

/-- The header frame of transfer 1 at tick 9 and cursor 4: an empty body of two bytes in one
chunk. -/
def sampleBeginFrame : List UInt8 := [0x81, 2, 0x10] ++ List.replicate 16 7 ++ [1, 9, 4, 2, 0, 1, 1]

def sampleChunkFrame : List UInt8 := [0x81, 2, 0x11] ++ List.replicate 16 7 ++ [1, 0, 1, 2, 0, 0]

/-- The decoders on a few frames: the two transfer frames, the empty body, and operation-free
deltas at tick 5 of sequences 1 and 5. -/
def sampleCodec : Codec where
  decodeDown := fun bytes ↦
    if bytes = sampleBeginFrame then .ok (.begin ⟨sampleEpoch, 1, 9, 4, 2, 0, 1, 1⟩)
    else if bytes = sampleChunkFrame then .ok (.chunk ⟨sampleEpoch, 1, 0, [0, 0]⟩)
    else .error .malformed
  decodeDelta := fun _ bytes ↦
    if bytes = [1, 0, 5, 1, 0] then .ok (.v1 ⟨0, 5, 1, []⟩)
    else if bytes = [1, 0, 5, 5, 0] then .ok (.v1 ⟨0, 5, 5, []⟩)
    else .error .malformed
  decodeBody := fun bytes ↦ if bytes = [0, 0] then .ok ⟨[], none⟩ else .error .malformed

/-- One delta offered to a live receiver: its five bytes are counted while it is queued. -/
theorem PoolRun.accounting_exact_queued_delta :
    ∃ start pool, ReassemblyPool.new TransferLimits.v1 = .ok start ∧
      pool = (PoolRun.after sampleCodec start [.addReceiver sampleEpoch .v1 .live,
          .offerDelta 1 [1, 0, 5, 1, 0] 10]).pool ∧ pool.heldDeltaBytes.value = 5 ∧
      pool.heldDeltaBytes.value = pool.receivers.sum Receiver.storedDeltaBytes :=
  ⟨_, _, rfl, rfl, rfl, (PoolRun.accounting_exact sampleCodec TransferLimits.v1 _ rfl
    [.addReceiver sampleEpoch .v1 .live, .offerDelta 1 [1, 0, 5, 1, 0] 10] _ rfl).2.1⟩

end Crpg.Net
