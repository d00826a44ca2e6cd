import Crpg.Net.ReassemblyOrder

/-!
# How a receiver moves

A receiver is `Sound` when the transfer in flight is above every retired id, every held delta is at
or above the expected sequence, and a live receiver without a transfer does not hold the expected
delta. `Moves` is what any operation does to a receiver: it keeps soundness, retires ids and passes
sequences upwards only, a transfer leaves flight by being retired, one enters it by being begun, and
a waiting receiver goes live by publishing the transfer in flight. Every operation on a receiver
moves it.
-/

set_option autoImplicit false

namespace Crpg.Net

open Crpg.Core Crpg.Lib
open Option (filter_eq_some_iff some_ne_none)

/-! ### Receivers -/

def Receiver.flying (receiver : Receiver) : Option BeginTransfer :=
  receiver.inFlight.map InFlightTransfer.header

theorem Receiver.flying_eq_some {receiver : Receiver} {header : BeginTransfer} :
    receiver.flying = some header ↔
      ∃ inFlight, receiver.inFlight = some inFlight ∧ inFlight.header = header :=
  Option.map_eq_some_iff

/-- The transfer in flight is above every retired id and covers what was passed, and no held delta
was passed. -/
structure Receiver.Placed (receiver : Receiver) : Prop where
  above : ∀ header, receiver.flying = some header →
    receiver.retiredThrough < (header.transfer : ℕ)
  covers : ∀ header, receiver.flying = some header →
    receiver.nextEventSeq ≤ header.cursor + 1 ∧ header.cursor ≤ seqLast
  held : ∀ seq delta, receiver.held.get? seq = some delta → receiver.nextEventSeq ≤ seq

/-- In addition, a live receiver without a transfer does not hold the expected delta. -/
structure Receiver.Sound (receiver : Receiver) : Prop extends receiver.Placed where
  released : receiver.mode = .live → receiver.flying = none →
    receiver.held.get? receiver.nextEventSeq = none

/-- What an operation that begins and publishes certain transfers, if any, does to a receiver. -/
structure Receiver.Moves (begun published : Option TransferId) (before after : Receiver) :
    Prop where
  epoch : after.epoch = before.epoch
  retired : before.retiredThrough ≤ after.retiredThrough
  next : before.Sound → before.nextEventSeq ≤ after.nextEventSeq
  flies : ∀ header, after.flying = some header →
    before.flying = some header ∨ begun = some header.transfer
  leaves : ∀ header, before.flying = some header →
    after.flying = some header ∨ (header.transfer : ℕ) ≤ after.retiredThrough
  live : after.mode = .live → before.mode = .live ∨
    ∃ header, published = some header.transfer ∧ before.flying = some header
  sound : before.Sound → after.Sound

namespace Receiver

variable {begun published : Option TransferId} {before after : Receiver}

/-- An operation after one that begins and publishes nothing. -/
theorem Moves.trans {first second third : Receiver} (hfirst : Moves none none first second)
    (hsecond : Moves begun published second third) : Moves begun published first third where
  epoch := hsecond.epoch.trans hfirst.epoch
  retired := hfirst.retired.trans hsecond.retired
  next := fun hsound ↦ (hfirst.next hsound).trans (hsecond.next (hfirst.sound hsound))
  flies := by
    intro header hheader
    rcases hsecond.flies header hheader with hflying | hbegun
    · rcases hfirst.flies header hflying with hflying | hnone
      · exact .inl hflying
      · exact absurd hnone (some_ne_none _).symm
    · exact .inr hbegun
  leaves := by
    intro header hheader
    rcases hfirst.leaves header hheader with hflying | hretired
    · exact hsecond.leaves header hflying
    · exact .inr (hretired.trans hsecond.retired)
  live := by
    intro hlive
    rcases hsecond.live hlive with hlive | ⟨header, hpublished, hflying⟩
    · rcases hfirst.live hlive with hlive | ⟨_, hnone, -⟩
      · exact .inl hlive
      · exact absurd hnone (some_ne_none _).symm
    · rcases hfirst.flies header hflying with hflying | hnone
      · exact .inr ⟨header, hpublished, hflying⟩
      · exact absurd hnone (some_ne_none _).symm
  sound := fun hsound ↦ hsecond.sound (hfirst.sound hsound)

/-- An operation that leaves alone everything transfers and deltas are judged by. -/
theorem Moves.of_same (hepoch : after.epoch = before.epoch) (hmode : after.mode = before.mode)
    (hretired : after.retiredThrough = before.retiredThrough)
    (hnext : after.nextEventSeq = before.nextEventSeq) (hflying : after.flying = before.flying)
    (hheld : after.held = before.held) : Moves none none before after where
  epoch := hepoch
  retired := hretired.ge
  next := fun _ ↦ hnext.ge
  flies := fun header hheader ↦ .inl (hflying.symm.trans hheader)
  leaves := fun header hheader ↦ .inl (hflying.trans hheader)
  live := fun hlive ↦ .inl (hmode.symm.trans hlive)
  sound := by
    intro hsound
    refine ⟨⟨?_, ?_, ?_⟩, ?_⟩
    · rw [hflying, hretired]
      exact hsound.above
    · rw [hflying, hnext]
      exact hsound.covers
    · rw [hheld, hnext]
      exact hsound.held
    · rw [hmode, hflying, hheld, hnext]
      exact hsound.released

/-- An operation that begins nothing is one that might have. -/
theorem Moves.mayBegin (hmoves : Moves none published before after) :
    Moves begun published before after :=
  { hmoves with
    flies := fun header hheader ↦ (hmoves.flies header hheader).imp_right
      fun hnone ↦ absurd hnone (some_ne_none _).symm }

theorem Moves.mayPublish (hmoves : Moves none none before after) :
    Moves begun published before after :=
  { (hmoves.mayBegin : Moves begun none before after) with
    live := fun hlive ↦ (hmoves.live hlive).imp_right
      fun hpublished ↦ absurd hpublished.choose_spec.1 (some_ne_none _).symm }

theorem Moves.refl (receiver : Receiver) : Moves none none receiver receiver :=
  .of_same rfl rfl rfl rfl rfl rfl

/-- An operation that retires the transfer in flight and makes the receiver wait. -/
theorem Moves.of_await (hepoch : after.epoch = before.epoch)
    (hretired : before.retiredThrough ≤ after.retiredThrough)
    (hnext : after.nextEventSeq = before.nextEventSeq) (hmode : after.mode = .awaitSnapshot)
    (hnone : after.flying = none) (hleaves : ∀ header, before.flying = some header →
      (header.transfer : ℕ) ≤ after.retiredThrough)
    (hheld : ∀ seq delta, after.held.get? seq = some delta →
      before.held.get? seq = some delta) : Moves none none before after where
  epoch := hepoch
  retired := hretired
  next := fun _ ↦ hnext.ge
  flies := fun header hheader ↦ absurd (hnone.symm.trans hheader) (some_ne_none _).symm
  leaves := fun header hheader ↦ .inr (hleaves header hheader)
  live := fun hlive ↦ GateMode.noConfusion (hmode.symm.trans hlive)
  sound := by
    intro hsound
    refine ⟨⟨fun header hheader ↦ ?_, fun header hheader ↦ ?_, fun seq delta hdelta ↦ ?_⟩,
      fun hlive ↦ ?_⟩
    · exact absurd (hnone.symm.trans hheader) (some_ne_none _).symm
    · exact absurd (hnone.symm.trans hheader) (some_ne_none _).symm
    · rw [hnext]
      exact hsound.held seq delta (hheld seq delta hdelta)
    · exact GateMode.noConfusion (hmode.symm.trans hlive)

theorem sound_new (epoch : SessionEpoch) (wire : DeltaWire) (start : GateMode) :
    (Receiver.new epoch wire start).Sound :=
  ⟨⟨nofun, nofun, nofun⟩, fun _ _ ↦ rfl⟩

end Receiver

/-! ### Failures -/

section Failures

variable {focus : Focus}

theorem Focus.discardInFlight_spec (focus : Focus) :
    focus.discardInFlight.receiver.epoch = focus.receiver.epoch ∧
    focus.receiver.retiredThrough ≤ focus.discardInFlight.receiver.retiredThrough ∧
    focus.discardInFlight.receiver.nextEventSeq = focus.receiver.nextEventSeq ∧
    focus.discardInFlight.receiver.flying = none ∧ (∀ header, focus.receiver.flying = some header →
      (header.transfer : ℕ) ≤ focus.discardInFlight.receiver.retiredThrough) ∧
    focus.discardInFlight.receiver.held = focus.receiver.held := by
  unfold Focus.discardInFlight
  split
  · rename_i inFlight hinFlight
    refine ⟨rfl, le_max_left _ _, rfl, rfl, fun header hheader ↦ ?_, rfl⟩
    obtain ⟨found, hfound, rfl⟩ := Receiver.flying_eq_some.mp hheader
    rw [Option.some.inj (hinFlight.symm.trans hfound)]
    exact le_max_right _ _
  · rename_i hnone
    have hflying : focus.receiver.flying = none := by
      unfold Receiver.flying
      rw [hnone]
      rfl
    refine ⟨rfl, le_rfl, rfl, hflying, fun header hheader ↦ ?_, rfl⟩
    exact absurd (hflying.symm.trans hheader) (some_ne_none _).symm

theorem Focus.failInFlight_waits (focus : Focus) (reason : FailReason) :
    (focus.failInFlight reason).receiver.mode = .awaitSnapshot ∧
      (focus.failInFlight reason).receiver.flying = none := by
  obtain ⟨-, -, -, hnone, -, -⟩ := focus.discardInFlight_spec
  unfold Focus.failInFlight
  simp only
  split_ifs
  · exact ⟨rfl, hnone⟩
  · exact ⟨rfl, hnone⟩

/-- A failure retires the transfer in flight. -/
theorem Focus.moves_failInFlight (focus : Focus) (reason : FailReason) :
    Receiver.Moves none none focus.receiver (focus.failInFlight reason).receiver := by
  obtain ⟨hepoch, hretired, hnext, hnone, hleaves, hheld⟩ := focus.discardInFlight_spec
  unfold Focus.failInFlight
  simp only
  split_ifs
  · refine .of_await hepoch hretired hnext rfl hnone hleaves ?_
    exact nofun
  · refine .of_await hepoch hretired hnext rfl hnone hleaves fun seq delta hdelta ↦ ?_
    rw [← hheld]
    exact hdelta

/-- A rebind retires the transfer in flight. -/
theorem Focus.moves_rebind (focus : Focus) :
    Receiver.Moves none none focus.receiver focus.rebind.2.receiver := by
  obtain ⟨hepoch, hretired, hnext, hnone, hleaves, -⟩ := focus.discardInFlight_spec
  exact .of_await hepoch hretired hnext rfl hnone hleaves nofun

/-- Popping an update touches the queue only. -/
theorem Focus.moves_popUpdate (focus : Focus) :
    Receiver.Moves none none focus.receiver focus.popUpdate.2.receiver := by
  unfold Focus.popUpdate
  split
  · exact .refl _
  · exact .of_same rfl rfl rfl rfl rfl rfl

theorem Focus.moves_discard {inFlight : InFlightTransfer} {through : ℕ}
    (hinFlight : focus.receiver.inFlight = some inFlight)
    (hthrough : (inFlight.header.transfer : ℕ) ≤ through) (resync : Option ResyncReason) :
    Receiver.Moves none none focus.receiver
      ((focus.discard inFlight through).await resync).receiver := by
  refine .of_await rfl (le_max_left _ _) rfl rfl rfl (fun header hheader ↦ ?_) fun _ _ hdelta ↦ hdelta
  obtain ⟨found, hfound, rfl⟩ := Receiver.flying_eq_some.mp hheader
  rw [← Option.some.inj (hinFlight.symm.trans hfound)]
  exact hthrough.trans (le_max_right _ _)

theorem Focus.moves_handleCancel (focus : Focus) (transfer : TransferId) :
    Receiver.Moves none none focus.receiver (focus.handleCancel transfer).2.receiver ∧
      (transfer : ℕ) ≤ (focus.handleCancel transfer).2.receiver.retiredThrough := by
  unfold Focus.handleCancel
  split
  · rename_i inFlight hinFlight
    rw [filter_eq_some_iff] at hinFlight
    have hle := of_decide_eq_true hinFlight.2
    exact ⟨Focus.moves_discard hinFlight.1 (PNat.coe_le_coe _ _ |>.mpr hle) _, le_max_right _ _⟩
  · rename_i hnone
    refine ⟨?_, le_max_right _ _⟩
    refine ⟨rfl, le_max_left _ _, fun _ ↦ le_rfl, fun _ hheader ↦ .inl hheader,
      fun _ hheader ↦ .inl hheader, fun hlive ↦ .inl hlive, fun hsound ↦ ?_⟩
    refine ⟨⟨fun header hheader ↦ ?_, hsound.covers, hsound.held⟩, hsound.released⟩
    obtain ⟨inFlight, hinFlight, rfl⟩ := Receiver.flying_eq_some.mp hheader
    have habove := hsound.above _ hheader
    rw [show focus.receiver.inFlight = some inFlight from hinFlight,
      Option.filter_eq_none_iff] at hnone
    have hlt := hnone inFlight rfl
    rw [decide_eq_true_eq, not_le, ← PNat.coe_lt_coe] at hlt
    exact max_lt habove hlt

end Failures

/-! ### Releases -/

section Releases

variable {gate : Receiver → ℕ → Bool} {focus : Focus}

theorem Focus.release_spec (focus : Focus) (seq : ℕ) (delta : HeldDelta) :
    (focus.release seq delta).receiver.epoch = focus.receiver.epoch ∧
    (focus.release seq delta).receiver.mode = focus.receiver.mode ∧
    (focus.release seq delta).receiver.retiredThrough = focus.receiver.retiredThrough ∧
    (focus.release seq delta).receiver.flying = focus.receiver.flying ∧
    (focus.release seq delta).receiver.nextEventSeq = seq + 1 ∧
    (focus.release seq delta).receiver.held = focus.receiver.held.erase seq :=
  ⟨rfl, rfl, rfl, rfl, rfl, rfl⟩

/-- A drain touches the held deltas, the queue and the expected sequence. -/
theorem Focus.drain_same (gate : Receiver → ℕ → Bool) (fuel : ℕ) (focus : Focus) :
    (focus.drain gate fuel).2.receiver.epoch = focus.receiver.epoch ∧
    (focus.drain gate fuel).2.receiver.mode = focus.receiver.mode ∧
    (focus.drain gate fuel).2.receiver.retiredThrough = focus.receiver.retiredThrough ∧
    (focus.drain gate fuel).2.receiver.flying = focus.receiver.flying := by
  induction fuel generalizing focus with
  | zero => exact ⟨rfl, rfl, rfl, rfl⟩
  | succ fuel ih =>
    unfold Focus.drain
    simp only
    split
    · split
      · exact ih (focus.release _ _)
      · exact ⟨rfl, rfl, rfl, rfl⟩
    · exact ⟨rfl, rfl, rfl, rfl⟩

theorem Receiver.Placed.pass {before after : Receiver} (hplaced : before.Placed)
    (hretired : after.retiredThrough = before.retiredThrough)
    (hflying : after.flying = before.flying) (hnext : after.nextEventSeq = before.nextEventSeq + 1)
    (hheld : ∀ seq delta, after.held.get? seq = some delta →
      before.held.get? seq = some delta ∧ seq ≠ before.nextEventSeq)
    (hcovered : ∀ header, before.flying = some header → before.nextEventSeq ≤ header.cursor) :
    after.Placed := by
  refine ⟨?_, fun header hheader ↦ ?_, fun seq delta hdelta ↦ ?_⟩
  · rw [hflying, hretired]
    exact hplaced.above
  · rw [hflying] at hheader
    rw [hnext]
    exact ⟨Nat.add_le_add_right (hcovered header hheader) 1, (hplaced.covers header hheader).2⟩
  · obtain ⟨hbefore, hne⟩ := hheld seq delta hdelta
    have hle := hplaced.held seq delta hbefore
    omega

theorem Focus.drain_placed {flying : Option BeginTransfer}
    (hgate : ∀ receiver seq, receiver.flying = flying → gate receiver seq = true →
      ∀ header, flying = some header → seq ≤ header.cursor)
    (fuel : ℕ) {focus : Focus} (hflying : focus.receiver.flying = flying)
    (hplaced : focus.receiver.Placed) : (focus.drain gate fuel).2.receiver.Placed ∧
      focus.receiver.nextEventSeq ≤ (focus.drain gate fuel).2.receiver.nextEventSeq := by
  induction fuel generalizing focus with
  | zero => exact ⟨hplaced, le_rfl⟩
  | succ fuel ih =>
    unfold Focus.drain
    simp only
    split
    · rename_i hopen
      split
      · rename_i delta hdelta
        have hreleased : (focus.release focus.receiver.nextEventSeq delta).receiver.Placed := by
          refine hplaced.pass rfl rfl rfl (fun seq other hother ↦ ?_) fun header hheader ↦ ?_
          · rw [(focus.release_spec _ _).2.2.2.2.2, BTreeMap.get?_erase] at hother
            split_ifs at hother with hseq
            exact ⟨hother, hseq⟩
          · exact hgate _ _ hflying hopen header (hflying ▸ hheader)
        obtain ⟨hdrained, hle⟩ := @ih (focus.release focus.receiver.nextEventSeq delta) hflying
          hreleased
        exact ⟨hdrained, (Nat.le_succ _).trans hle⟩
      · exact ⟨hplaced, le_rfl⟩
    · exact ⟨hplaced, le_rfl⟩

/-- A drain through an open gate ends when the expected delta is not held. -/
theorem Focus.drain_released
    (hopen : ∀ receiver seq, receiver.mode = .live → receiver.flying = none →
      gate receiver seq = true) (fuel : ℕ) {focus : Focus} (hlive : focus.receiver.mode = .live)
    (hnone : focus.receiver.flying = none) (hfuel : focus.receiver.held.size ≤ fuel) :
    (focus.drain gate fuel).2.receiver.held.get?
      (focus.drain gate fuel).2.receiver.nextEventSeq = none := by
  induction fuel generalizing focus with
  | zero =>
    show focus.receiver.held.get? focus.receiver.nextEventSeq = none
    rw [Option.eq_none_iff_forall_ne_some]
    intro delta hdelta
    have hle := focus.receiver.held.le_sum hdelta fun _ ↦ 1
    rw [← BTreeMap.size_eq_sum] at hle
    omega
  | succ fuel ih =>
    unfold Focus.drain
    simp only
    rw [if_pos (hopen _ _ hlive hnone)]
    split
    · rename_i delta hdelta
      refine @ih (focus.release focus.receiver.nextEventSeq delta) hlive hnone ?_
      have hsize := focus.receiver.held.sum_erase hdelta fun _ ↦ 1
      rw [← BTreeMap.size_eq_sum, ← BTreeMap.size_eq_sum] at hsize
      rw [(focus.release_spec _ _).2.2.2.2.2]
      omega
    · assumption

theorem Receiver.passes_of_idle (receiver : Receiver) (seq : ℕ) (hlive : receiver.mode = .live)
    (hnone : receiver.flying = none) : receiver.passes seq = true := by
  have hinFlight : receiver.inFlight = none := Option.map_eq_none_iff.mp hnone
  unfold Receiver.passes
  rw [hinFlight, hlive]
  rfl

theorem Receiver.le_cursor_of_passes {receiver : Receiver} {seq : ℕ}
    (hpasses : receiver.passes seq = true) {header : BeginTransfer}
    (hheader : receiver.flying = some header) : seq ≤ header.cursor := by
  obtain ⟨inFlight, hinFlight, rfl⟩ := Receiver.flying_eq_some.mp hheader
  exact (Receiver.passes_spec hpasses).2 inFlight hinFlight

theorem Focus.offerDelta_cases (focus : Focus) (codec : Codec) (limits : TransferLimits)
    (bytes : List UInt8) : ((focus.offerDelta codec limits bytes).2 = focus ∧
      ∀ reason, (focus.offerDelta codec limits bytes).1 ≠ .error (.failed reason)) ∨
    (∃ reason, focus.offerDelta codec limits bytes =
      (.error (.failed reason), focus.failInFlight reason)) ∨
    ∃ gated : GatedDelta, focus.receiver.held.get? gated.eventSeq = none ∧
      focus.receiver.nextEventSeq ≤ gated.eventSeq ∧ ((focus.receiver.passes gated.eventSeq = true ∧
          gated.eventSeq = focus.receiver.nextEventSeq ∧
          focus.offerDelta codec limits bytes = focus.releaseOffered gated bytes.length) ∨
        (¬(focus.receiver.passes gated.eventSeq = true ∧
            gated.eventSeq = focus.receiver.nextEventSeq) ∧
          focus.offerDelta codec limits bytes = focus.hold gated bytes)) := by
  unfold Focus.offerDelta
  split
  · exact .inl ⟨rfl, nofun⟩
  rename_i gated _
  simp only
  by_cases hrange : gated.eventSeq = 0 ∨ seqLast < gated.eventSeq
  · rw [if_pos hrange]
    exact .inl ⟨rfl, nofun⟩
  rw [if_neg hrange]
  by_cases hbehind : gated.eventSeq < focus.receiver.nextEventSeq
  · rw [if_pos hbehind]
    exact .inl ⟨rfl, nofun⟩
  rw [if_neg hbehind]
  cases hheld : focus.receiver.held.get? gated.eventSeq with
  | some delta =>
    simp only
    by_cases hsame : delta.bytes = bytes
    · rw [if_pos hsame]
      exact .inl ⟨rfl, nofun⟩
    · rw [if_neg hsame]
      exact .inr (.inl ⟨.conflict, rfl⟩)
  | none =>
    simp only
    split
    · exact .inr (.inl ⟨.overflow, rfl⟩)
    · refine .inr (.inr ⟨gated, hheld, not_lt.mp hbehind, ?_⟩)
      by_cases hpasses : focus.receiver.passes gated.eventSeq = true ∧
          gated.eventSeq = focus.receiver.nextEventSeq
      · rw [if_pos hpasses]
        exact .inl ⟨hpasses.1, hpasses.2, rfl⟩
      · rw [if_neg hpasses]
        exact .inr ⟨hpasses, rfl⟩

theorem Focus.releaseOffered_spec (focus : Focus) (gated : GatedDelta) (len : ℕ) :
    ∃ passed : Focus, passed.receiver.epoch = focus.receiver.epoch ∧
      passed.receiver.mode = focus.receiver.mode ∧
      passed.receiver.retiredThrough = focus.receiver.retiredThrough ∧
      passed.receiver.flying = focus.receiver.flying ∧
      passed.receiver.nextEventSeq = gated.eventSeq + 1 ∧
      passed.receiver.held = focus.receiver.held ∧ (focus.releaseOffered gated len).2 =
        (passed.drain Receiver.passes passed.receiver.held.size).2 :=
  ⟨{ focus.enqueue (.delta gated) len with
      receiver := { (focus.enqueue (.delta gated) len).receiver with
        nextEventSeq := gated.eventSeq + 1 } },
    rfl, rfl, rfl, rfl, rfl, rfl, rfl⟩

theorem Focus.moves_offerDelta (focus : Focus) (codec : Codec) (limits : TransferLimits)
    (bytes : List UInt8) :
    Receiver.Moves none none focus.receiver (focus.offerDelta codec limits bytes).2.receiver := by
  rcases focus.offerDelta_cases codec limits bytes with
    ⟨heq, -⟩ | ⟨reason, heq⟩ | ⟨gated, hfresh, hahead, hpassed | hheld⟩
  · rw [heq]
    exact .refl _
  · rw [heq]
    exact focus.moves_failInFlight reason
  · -- The expected delta passes, and then what was held behind it.
    obtain ⟨hopen, hseq, heq⟩ := hpassed
    obtain ⟨passed, hepoch, hmode, hretired, hflying, hnext, hheld, hrest⟩ :=
      focus.releaseOffered_spec gated bytes.length
    rw [heq, hrest]
    have hdrain := passed.drain_same Receiver.passes passed.receiver.held.size
    have hplaced : focus.receiver.Placed → passed.receiver.Placed := by
      intro hplaced
      refine hplaced.pass hretired hflying (hseq ▸ hnext) (fun seq delta hdelta ↦ ?_)
        fun header hheader ↦ ?_
      · rw [hheld] at hdelta
        refine ⟨hdelta, fun heq ↦ ?_⟩
        rw [heq, ← hseq, hfresh] at hdelta
        exact absurd hdelta (some_ne_none _).symm
      · rw [← hseq]
        exact Receiver.le_cursor_of_passes hopen hheader
    have hdrained := fun hplacedBefore ↦ @Focus.drain_placed Receiver.passes passed.receiver.flying
      (fun receiver seq heq hgate header hheader ↦
        Receiver.le_cursor_of_passes hgate (heq.trans hheader))
      passed.receiver.held.size passed rfl (hplaced hplacedBefore)
    refine ⟨hdrain.1.trans hepoch, (hdrain.2.2.1.trans hretired).ge, fun hsound ↦ ?_,
      fun header hheader ↦ .inl (hflying.symm.trans (hdrain.2.2.2.symm.trans hheader)),
      fun header hheader ↦ .inl (hdrain.2.2.2.trans (hflying.trans hheader)),
      fun hlive ↦ .inl (hmode.symm.trans (hdrain.2.1.symm.trans hlive)), fun hsound ↦ ?_⟩
    · have hle := (hdrained hsound.toPlaced).2
      rw [hnext] at hle
      exact hahead.trans ((Nat.le_succ _).trans hle)
    · refine ⟨(hdrained hsound.toPlaced).1, fun hlive hnone ↦ ?_⟩
      exact Focus.drain_released (fun receiver seq ↦ receiver.passes_of_idle seq) _
        (hdrain.2.1.symm.trans hlive) (hdrain.2.2.2.symm.trans hnone) le_rfl
  · -- Any other is held.
    obtain ⟨hpasses, heq⟩ := hheld
    rw [heq]
    unfold Focus.hold
    refine ⟨rfl, le_rfl, fun _ ↦ le_rfl, fun _ hheader ↦ .inl hheader, fun _ hheader ↦ .inl hheader,
      fun hlive ↦ .inl hlive, fun hsound ↦ ?_⟩
    refine ⟨⟨hsound.above, hsound.covers, fun seq delta hdelta ↦ ?_⟩, fun hlive hnone ↦ ?_⟩
    · simp only [BTreeMap.get?_insert] at hdelta
      split_ifs at hdelta with hseq
      · rw [hseq]
        exact hahead
      · exact hsound.held seq delta hdelta
    · have hne : focus.receiver.nextEventSeq ≠ gated.eventSeq := by
        intro heq
        exact hpasses ⟨focus.receiver.passes_of_idle _ hlive hnone, heq.symm⟩
      simp only [BTreeMap.get?_insert, if_neg hne]
      exact hsound.released hlive hnone

theorem Focus.offerDelta_waits {codec : Codec} {limits : TransferLimits} {bytes : List UInt8}
    {reason : FailReason}
    (hfails : (focus.offerDelta codec limits bytes).1 = .error (.failed reason)) :
    (focus.offerDelta codec limits bytes).2.receiver.mode = .awaitSnapshot ∧
      (focus.offerDelta codec limits bytes).2.receiver.flying = none := by
  rcases focus.offerDelta_cases codec limits bytes with
    ⟨-, hkept⟩ | ⟨other, heq⟩ | ⟨gated, -, -, ⟨-, -, heq⟩ | ⟨-, heq⟩⟩
  · exact absurd hfails (hkept reason)
  · rw [heq]
    exact focus.failInFlight_waits other
  · rw [heq] at hfails
    exact nomatch hfails
  · rw [heq] at hfails
    exact nomatch hfails

end Releases

/-! ### Transfer frames -/

section Frames

variable {focus : Focus}

theorem Focus.cutover_spec (focus : Focus) (inFlight : InFlightTransfer) (body : SnapshotBody) :
    ∃ (kept : Focus) (released : ℕ), kept.receiver.epoch = focus.receiver.epoch ∧
      kept.receiver.mode = .live ∧ kept.receiver.retiredThrough =
        max focus.receiver.retiredThrough inFlight.header.transfer ∧ kept.receiver.flying = none ∧
      kept.receiver.nextEventSeq = saturatingAdd u64Max inFlight.header.cursor 1 ∧ kept.receiver.held =
        focus.receiver.held.filter (fun seq _ ↦ !decide (seq ≤ inFlight.header.cursor)) ∧
      focus.cutover inFlight body = (.ok (.published inFlight.header.transfer released),
        (kept.drain (fun _ _ ↦ true) kept.receiver.held.size).2) := by
  obtain ⟨heldBytes, hkept⟩ :=
    ((focus.discard inFlight inFlight.header.transfer).clearStaleQueue).dropCovered_receiver
      inFlight.header.cursor
  have hclear : ∀ focus : Focus,
      focus.clearStaleQueue.receiver.epoch = focus.receiver.epoch ∧
      focus.clearStaleQueue.receiver.retiredThrough = focus.receiver.retiredThrough ∧
      focus.clearStaleQueue.receiver.inFlight = focus.receiver.inFlight ∧
      focus.clearStaleQueue.receiver.held = focus.receiver.held := by
    intro focus
    unfold Focus.clearStaleQueue
    split_ifs
    · exact ⟨rfl, rfl, rfl, rfl⟩
    · exact ⟨rfl, rfl, rfl, rfl⟩
  obtain ⟨hepoch, hretired, hinFlight, hheld⟩ :=
    hclear (focus.discard inFlight inFlight.header.transfer)
  unfold Focus.cutover
  refine ⟨_, _, ?_, ?_, ?_, ?_, ?_, ?_, rfl⟩
  · exact (congrArg Receiver.epoch hkept).trans hepoch
  · rfl
  · exact (congrArg Receiver.retiredThrough hkept).trans hretired
  · exact congrArg (Option.map InFlightTransfer.header)
      ((congrArg Receiver.inFlight hkept).trans hinFlight)
  · rfl
  · refine (congrArg Receiver.held hkept).trans ?_
    show (focus.discard inFlight inFlight.header.transfer).clearStaleQueue.receiver.held.filter
      (fun seq _ ↦ !decide (seq ≤ inFlight.header.cursor)) = _
    rw [hheld]
    rfl

theorem Focus.moves_cutover {inFlight : InFlightTransfer}
    (hinFlight : focus.receiver.inFlight = some inFlight) (body : SnapshotBody) :
    Receiver.Moves none (some inFlight.header.transfer) focus.receiver
      (focus.cutover inFlight body).2.receiver := by
  obtain ⟨kept, released, hepoch, hmode, hretired, hnone, hnext, hheld, heq⟩ :=
    focus.cutover_spec inFlight body
  have hflying : focus.receiver.flying = some inFlight.header :=
    Receiver.flying_eq_some.mpr ⟨inFlight, hinFlight, rfl⟩
  obtain ⟨hdrainEpoch, -, hdrainRetired, hdrainFlying⟩ :=
    kept.drain_same (fun _ _ ↦ true) kept.receiver.held.size
  have hafter : (kept.drain (fun _ _ ↦ true) kept.receiver.held.size).2.receiver.flying = none :=
    hdrainFlying.trans hnone
  have hexpected : focus.receiver.Placed →
      kept.receiver.nextEventSeq = inFlight.header.cursor + 1 := by
    intro hplaced
    have hcursor := (hplaced.covers _ hflying).2
    rw [hnext]
    unfold saturatingAdd u64Max
    unfold seqLast at hcursor
    omega
  have hplaced : focus.receiver.Placed → kept.receiver.Placed := by
    intro hplaced
    refine ⟨fun header hheader ↦ ?_, fun header hheader ↦ ?_, fun seq delta hdelta ↦ ?_⟩
    · exact absurd (hnone.symm.trans hheader) (some_ne_none _).symm
    · exact absurd (hnone.symm.trans hheader) (some_ne_none _).symm
    · rw [hheld, BTreeMap.get?_filter, filter_eq_some_iff] at hdelta
      have huncovered := hdelta.2
      rw [Bool.not_eq_true', decide_eq_false_iff_not, not_le] at huncovered
      rw [hexpected hplaced]
      exact huncovered
  have hdrained := fun hbefore ↦ @Focus.drain_placed (fun _ _ ↦ true) none
    (fun _ _ _ _ header hheader ↦ absurd hheader (some_ne_none header).symm)
    kept.receiver.held.size kept hnone (hplaced hbefore)
  rw [heq]
  refine ⟨hdrainEpoch.trans hepoch, ?_, fun hbefore ↦ ?_, fun header hheader ↦ ?_,
    fun header hheader ↦ .inr ?_, fun _ ↦ .inr ⟨inFlight.header, rfl, hflying⟩, fun hsound ↦ ?_⟩
  · rw [hdrainRetired, hretired]
    exact le_max_left _ _
  · have hcursor := (hbefore.covers _ hflying).1
    rw [← hexpected hbefore.toPlaced] at hcursor
    exact hcursor.trans (hdrained hbefore.toPlaced).2
  · exact absurd (hafter.symm.trans hheader) (some_ne_none _).symm
  · rw [← Option.some.inj (hflying.symm.trans hheader), hdrainRetired, hretired]
    exact le_max_right _ _
  · exact ⟨(hdrained hsound.toPlaced).1, fun _ _ ↦
      Focus.drain_released (fun _ _ _ _ ↦ rfl) _ hmode hnone le_rfl⟩

def TransferOutcome.publishes : Except TransferError TransferOutcome → Option TransferId
  | .ok (.published transfer _) => some transfer
  | _ => none

def TransferOutcome.begins (transfer : TransferId) :
    Except TransferError TransferOutcome → Option TransferId
  | .ok .begun => some transfer
  | _ => none

def TransferOutcome.Ends : Except TransferError TransferOutcome → Prop
  | .ok (.published _ _) => True
  | .ok (.cancelled _) => True
  | .error (.failed _) => True
  | _ => False

theorem Focus.handleBegin_cases (focus : Focus) (limits : TransferLimits) (header : BeginTransfer)
    (nowMs : ℕ) : (∃ result, focus.handleBegin limits header nowMs = (result, focus) ∧
      TransferOutcome.begins header.transfer result = none ∧
      TransferOutcome.publishes result = none ∧ ¬TransferOutcome.Ends result) ∨
    (focus.handleBegin limits header nowMs =
        (.error (.failed .conflict), focus.failInFlight .conflict) ∧
      ∃ inFlight, focus.receiver.inFlight = some inFlight ∧
        inFlight.header.transfer = header.transfer) ∨
    (focus.receiver.flying = none ∧ focus.receiver.retiredThrough < (header.transfer : ℕ) ∧
      focus.receiver.nextEventSeq ≤ header.cursor + 1 ∧ header.cursor ≤ seqLast ∧
      ∃ inFlight stagingBytes, inFlight.header = header ∧
        focus.handleBegin limits header nowMs = (.ok .begun,
          ⟨{ focus.receiver with inFlight := some inFlight, resync := none }, stagingBytes,
            focus.heldDeltaBytes⟩)) := by
  unfold Focus.handleBegin
  cases hinFlight : focus.receiver.inFlight with
  | some inFlight =>
    simp only
    by_cases hid : inFlight.header.transfer = header.transfer
    · rw [if_pos hid]
      by_cases hsame : inFlight.header = header
      · rw [if_pos hsame]
        exact .inl ⟨_, rfl, rfl, rfl, id⟩
      · rw [if_neg hsame]
        exact .inr (.inl ⟨rfl, inFlight, rfl, hid⟩)
    · rw [if_neg hid]
      split_ifs
      · exact .inl ⟨_, rfl, rfl, rfl, id⟩
      · exact .inl ⟨_, rfl, rfl, rfl, id⟩
  | none =>
    simp only
    by_cases hretired : (header.transfer : ℕ) ≤ focus.receiver.retiredThrough
    · rw [if_pos hretired]
      exact .inl ⟨_, rfl, rfl, rfl, id⟩
    rw [if_neg hretired]
    by_cases hbehind : header.cursor + 1 < focus.receiver.nextEventSeq ∨
        focus.receiver.published.any (fun base ↦ header.baseTick < base.baseTick) = true
    · rw [if_pos hbehind]
      exact .inl ⟨_, rfl, rfl, rfl, id⟩
    rw [if_neg hbehind]
    split_ifs
    · exact .inl ⟨_, rfl, rfl, rfl, id⟩
    · exact .inl ⟨_, rfl, rfl, rfl, id⟩
    unfold TransferAssembly.new
    cases hvalid : header.validate with
    | error defect => exact .inl ⟨_, rfl, rfl, rfl, id⟩
    | ok _ =>
      rw [not_or, not_lt] at hbehind
      refine .inr (.inr ⟨?_, not_le.mp hretired, hbehind.1,
        BeginTransfer.cursor_le_of_validate hvalid, _, _, ?_, rfl⟩)
      · unfold Receiver.flying
        rw [hinFlight]
        rfl
      · rfl

theorem Focus.moves_handleBegin (focus : Focus) (limits : TransferLimits) (header : BeginTransfer)
    (nowMs : ℕ) : Receiver.Moves
      (TransferOutcome.begins header.transfer (focus.handleBegin limits header nowMs).1)
      (TransferOutcome.publishes (focus.handleBegin limits header nowMs).1) focus.receiver
      (focus.handleBegin limits header nowMs).2.receiver := by
  rcases focus.handleBegin_cases limits header nowMs with
    ⟨result, heq, hbegins, hpublishes, -⟩ | ⟨heq, -⟩ |
      ⟨hnone, habove, hcovers, hcursor, inFlight, stagingBytes, hheader, heq⟩
  · rw [heq, hbegins, hpublishes]
    exact .refl _
  · rw [heq]
    exact focus.moves_failInFlight .conflict
  · rw [heq]
    refine ⟨rfl, le_rfl, fun _ ↦ le_rfl, fun other hother ↦ .inr ?_, fun other hother ↦ ?_,
      fun hlive ↦ .inl hlive, fun hsound ↦ ?_⟩
    · rw [← Option.some.inj hother, hheader]
      rfl
    · exact absurd (hnone.symm.trans hother) (some_ne_none _).symm
    · refine ⟨⟨fun other hother ↦ ?_, fun other hother ↦ ?_, hsound.held⟩, fun _ hidle ↦ ?_⟩
      · rw [← Option.some.inj hother, hheader]
        exact habove
      · rw [← Option.some.inj hother, hheader]
        exact ⟨hcovers, hcursor⟩
      · exact absurd hidle (some_ne_none _)

theorem TransferAssembly.intoBytes_of_complete {assembly next : TransferAssembly}
    {chunk : TransferChunk} (haccept : assembly.accept chunk = .ok (.complete, next)) :
    next.intoBytes = some next.buffer := by
  have hreceived : next.received = next.header.chunkCount := by
    unfold TransferAssembly.accept at haccept
    split at haccept
    · exact nomatch haccept
    split at haccept
    · exact nomatch haccept
    split at haccept
    · exact nomatch haccept
    split at haccept
    · exact nomatch haccept
    simp only at haccept
    split at haccept
    · split at haccept
      · exact nomatch haccept
      · exact nomatch haccept
    · split at haccept
      · rename_i hcount
        rw [← (Prod.mk.inj (Except.ok.inj haccept)).2]
        exact hcount
      · exact nomatch haccept
  unfold TransferAssembly.intoBytes
  rw [if_neg (not_not.mpr hreceived)]

theorem Focus.handleChunk_cases (focus : Focus) (codec : Codec) (chunk : TransferChunk) :
    ((focus.handleChunk codec chunk).2 = focus ∧
      (∀ header, focus.receiver.flying = some header → header.transfer ≠ chunk.transfer) ∧
      (focus.handleChunk codec chunk).1 =
        if (chunk.transfer : ℕ) ≤ focus.receiver.retiredThrough then .error .staleTransfer
        else .error .unknownTransfer) ∨ ∃ inFlight, focus.receiver.inFlight = some inFlight ∧
      inFlight.header.transfer = chunk.transfer ∧
      (focus.handleChunk codec chunk = (.error (.failed .conflict), focus.failInFlight .conflict) ∨
        ∃ stored : Focus, stored.receiver =
            { focus.receiver with inFlight := stored.receiver.inFlight } ∧
          ∃ assembled, stored.receiver.inFlight = some assembled ∧
            assembled.header = inFlight.header ∧
            ((∃ outcome, focus.handleChunk codec chunk = (.ok outcome, stored) ∧
                TransferOutcome.publishes (.ok outcome) = none ∧
                ¬TransferOutcome.Ends (.ok outcome)) ∨
              (∃ defect, focus.handleChunk codec chunk = stored.failBody assembled defect) ∨
              ∃ body, focus.handleChunk codec chunk = stored.cutover assembled body)) := by
  unfold Focus.handleChunk
  simp only
  cases hinFlight : focus.receiver.inFlight with
  | none =>
    refine .inl ⟨?_, fun header hheader ↦ ?_, ?_⟩
    · simp only
      split_ifs
      · rfl
      · rfl
    · obtain ⟨found, hfound, -⟩ := Receiver.flying_eq_some.mp hheader
      exact absurd (hinFlight.symm.trans hfound) (some_ne_none _).symm
    · simp only
      split_ifs
      · rfl
      · rfl
  | some inFlight =>
    simp only
    by_cases hid : inFlight.header.transfer = chunk.transfer
    · rw [if_pos hid]
      refine .inr ⟨inFlight, rfl, hid, ?_⟩
      cases haccept : inFlight.assembly.accept chunk with
      | error refusal => exact .inl rfl
      | ok accepted =>
        obtain ⟨outcome, assembly⟩ := accepted
        refine .inr ⟨{ focus with receiver := { focus.receiver with
          inFlight := some { inFlight with assembly } } }, rfl, { inFlight with assembly }, rfl,
          rfl, ?_⟩
        cases outcome with
        | duplicate => exact .inl ⟨_, rfl, rfl, id⟩
        | stored => exact .inl ⟨_, rfl, rfl, id⟩
        | complete =>
          have hbytes : assembly.intoBytes = some assembly.buffer :=
            TransferAssembly.intoBytes_of_complete haccept
          simp only [Focus.publish, hbytes]
          cases hbody : codec.decodeBody assembly.buffer with
          | error defect => exact .inr (.inl ⟨defect, rfl⟩)
          | ok body =>
            simp only
            split_ifs
            · exact .inr (.inl ⟨_, rfl⟩)
            · exact .inr (.inr ⟨body, rfl⟩)
    · rw [if_neg hid]
      refine .inl ⟨?_, fun header hheader ↦ ?_, ?_⟩
      · split_ifs
        · rfl
        · rfl
      · obtain ⟨found, hfound, rfl⟩ := Receiver.flying_eq_some.mp hheader
        rw [← Option.some.inj (hinFlight.symm.trans hfound)]
        exact hid
      · split_ifs
        · rfl
        · rfl

theorem Focus.moves_handleChunk (focus : Focus) (codec : Codec) (chunk : TransferChunk) :
    Receiver.Moves none (TransferOutcome.publishes (focus.handleChunk codec chunk).1)
      focus.receiver (focus.handleChunk codec chunk).2.receiver := by
  rcases focus.handleChunk_cases codec chunk with ⟨hfocus, -, hresult⟩ | ⟨inFlight, hinFlight, -,
    heq | ⟨stored, hstored, assembled, hassembled, hheader, houtcome⟩⟩
  · have hnone : TransferOutcome.publishes (focus.handleChunk codec chunk).1 = none := by
      rw [hresult]
      split_ifs
      · rfl
      · rfl
    rw [hfocus, hnone]
    exact .refl _
  · rw [heq]
    exact focus.moves_failInFlight .conflict
  · -- Storing the chunk is seen by no one.
    have hsame : Receiver.Moves none none focus.receiver stored.receiver := by
      refine .of_same ?_ ?_ ?_ ?_ ?_ ?_
      · rw [hstored]
      · rw [hstored]
      · rw [hstored]
      · rw [hstored]
      · unfold Receiver.flying
        rw [hassembled, hinFlight]
        exact congrArg some hheader
      · rw [hstored]
    rcases houtcome with ⟨outcome, heq, hpublishes, -⟩ | ⟨defect, heq⟩ | ⟨body, heq⟩
    · rw [heq, hpublishes]
      exact hsame
    · rw [heq]
      exact hsame.trans (Focus.moves_discard hassembled le_rfl _)
    · obtain ⟨kept, released, -, -, -, -, -, -, hcutover⟩ := stored.cutover_spec assembled body
      have hpublishes : TransferOutcome.publishes (stored.cutover assembled body).1 =
          some assembled.header.transfer := by
        rw [hcutover]
        rfl
      rw [heq, hpublishes]
      exact hsame.trans (Focus.moves_cutover hassembled body)

variable {codec : Codec} {limits : TransferLimits} {nowMs : ℕ} {message : TransferDown}

theorem moves_handle (codec : Codec) (limits : TransferLimits) (nowMs : ℕ) (focus : Focus)
    (message : TransferDown) : Receiver.Moves (TransferOutcome.begins message.transfer
        (ReassemblyPool.handle codec limits nowMs focus message).1)
      (TransferOutcome.publishes (ReassemblyPool.handle codec limits nowMs focus message).1)
      focus.receiver (ReassemblyPool.handle codec limits nowMs focus message).2.receiver := by
  cases message with
  | begin header => exact focus.moves_handleBegin limits header nowMs
  | chunk chunk => exact (focus.moves_handleChunk codec chunk).mayBegin
  | cancel epoch transfer reason =>
    have hnone : TransferOutcome.publishes (focus.handleCancel transfer).1 = none := by
      unfold Focus.handleCancel
      split
      · rfl
      · rfl
    show Receiver.Moves _ (TransferOutcome.publishes (focus.handleCancel transfer).1) _ _
    rw [hnone]
    exact (focus.moves_handleCancel transfer).1.mayBegin

theorem handle_retires
    (hends : TransferOutcome.Ends (ReassemblyPool.handle codec limits nowMs focus message).1) :
    (message.transfer : ℕ) ≤
      (ReassemblyPool.handle codec limits nowMs focus message).2.receiver.retiredThrough := by
  cases message with
  | begin header =>
    show (header.transfer : ℕ) ≤
      (focus.handleBegin limits header nowMs).2.receiver.retiredThrough
    rcases focus.handleBegin_cases limits header nowMs with ⟨result, heq, -, -, hkept⟩ |
      ⟨heq, inFlight, hinFlight, hid⟩ | ⟨-, -, -, -, inFlight, stagingBytes, -, heq⟩
    · simp only [ReassemblyPool.handle, heq] at hends
      exact absurd hends hkept
    · have hleaves := (focus.moves_failInFlight .conflict).leaves inFlight.header
        (Receiver.flying_eq_some.mpr ⟨inFlight, hinFlight, rfl⟩)
      rw [heq, ← hid]
      apply hleaves.resolve_left
      rw [(focus.failInFlight_waits .conflict).2]
      exact (some_ne_none _).symm
    · simp only [ReassemblyPool.handle, heq] at hends
      exact hends.elim
  | chunk chunk =>
    show (chunk.transfer : ℕ) ≤ (focus.handleChunk codec chunk).2.receiver.retiredThrough
    simp only [ReassemblyPool.handle] at hends
    rcases focus.handleChunk_cases codec chunk with ⟨-, -, hresult⟩ | ⟨inFlight, hinFlight, hid,
      heq | ⟨stored, -, assembled, hassembled, hheader, houtcome⟩⟩
    · rw [hresult] at hends
      split_ifs at hends
      · exact hends.elim
      · exact hends.elim
    · have hleaves := (focus.moves_failInFlight .conflict).leaves inFlight.header
        (Receiver.flying_eq_some.mpr ⟨inFlight, hinFlight, rfl⟩)
      rw [heq, ← hid]
      apply hleaves.resolve_left
      rw [(focus.failInFlight_waits .conflict).2]
      exact (some_ne_none _).symm
    · rw [← hid, ← hheader]
      rcases houtcome with ⟨outcome, heq, -, hkept⟩ | ⟨defect, heq⟩ | ⟨body, heq⟩
      · rw [heq] at hends
        exact absurd hends hkept
      · rw [heq]
        exact le_max_right _ _
      · obtain ⟨kept, released, -, -, hretired, -, -, -, hcutover⟩ :=
          stored.cutover_spec assembled body
        have hsame := (kept.drain_same (fun _ _ ↦ true) kept.receiver.held.size).2.2.1
        rw [heq, hcutover, hsame, hretired]
        exact le_max_right _ _
  | cancel epoch transfer reason => exact (focus.moves_handleCancel transfer).2

theorem handle_waits {reason : FailReason}
    (hfails : (ReassemblyPool.handle codec limits nowMs focus message).1 =
      .error (.failed reason)) :
    (ReassemblyPool.handle codec limits nowMs focus message).2.receiver.mode = .awaitSnapshot ∧
      (ReassemblyPool.handle codec limits nowMs focus message).2.receiver.flying = none := by
  cases message with
  | begin header =>
    simp only [ReassemblyPool.handle] at hfails ⊢
    rcases focus.handleBegin_cases limits header nowMs with ⟨result, heq, -, -, hkept⟩ |
      ⟨heq, -⟩ | ⟨-, -, -, -, inFlight, stagingBytes, -, heq⟩
    · rw [heq] at hfails
      simp only at hfails
      rw [hfails] at hkept
      exact absurd trivial hkept
    · rw [heq]
      exact focus.failInFlight_waits _
    · rw [heq] at hfails
      exact nomatch hfails
  | chunk chunk =>
    simp only [ReassemblyPool.handle] at hfails ⊢
    rcases focus.handleChunk_cases codec chunk with ⟨-, -, hresult⟩ | ⟨inFlight, -, -,
      heq | ⟨stored, -, assembled, -, -, houtcome⟩⟩
    · rw [hresult] at hfails
      split_ifs at hfails
      · exact nomatch hfails
      · exact nomatch hfails
    · rw [heq]
      exact focus.failInFlight_waits _
    · rcases houtcome with ⟨outcome, heq, -, -⟩ | ⟨defect, heq⟩ | ⟨body, heq⟩
      · rw [heq] at hfails
        exact nomatch hfails
      · rw [heq]
        exact ⟨rfl, rfl⟩
      · obtain ⟨kept, released, -, -, -, -, -, -, hcutover⟩ := stored.cutover_spec assembled body
        rw [heq, hcutover] at hfails
        exact nomatch hfails
  | cancel epoch transfer reason =>
    simp only [ReassemblyPool.handle, Focus.handleCancel] at hfails
    split at hfails
    · exact nomatch hfails
    · exact nomatch hfails

/-- What a frame of a retired transfer gets: the end of a transfer is acknowledged again, and any
other frame is stale. -/
def TransferDown.staleResult : TransferDown → Except TransferError TransferOutcome
  | .cancel _ _ _ => .ok (.cancelled false)
  | _ => .error .staleTransfer

theorem handle_stale (hplaced : focus.receiver.Placed)
    (hretired : (message.transfer : ℕ) ≤ focus.receiver.retiredThrough) :
    (ReassemblyPool.handle codec limits nowMs focus message).1 = message.staleResult := by
  have hother : ∀ inFlight, focus.receiver.inFlight = some inFlight →
      message.transfer < inFlight.header.transfer := by
    intro inFlight hinFlight
    have habove := hplaced.above _ (Receiver.flying_eq_some.mpr ⟨inFlight, hinFlight, rfl⟩)
    rw [← PNat.coe_lt_coe]
    exact hretired.trans_lt habove
  cases message with
  | begin header =>
    simp only [TransferDown.transfer] at hretired hother
    simp only [ReassemblyPool.handle, Focus.handleBegin]
    split
    · rename_i inFlight hinFlight
      rw [if_neg (hother inFlight hinFlight).ne', if_pos hretired]
      rfl
    · rw [if_pos hretired]
      rfl
  | chunk chunk =>
    simp only [TransferDown.transfer] at hretired hother
    simp only [ReassemblyPool.handle, Focus.handleChunk]
    split
    · rw [if_pos hretired]
      rfl
    · rename_i inFlight hinFlight
      rw [if_neg (hother inFlight hinFlight).ne', if_pos hretired]
      rfl
  | cancel epoch transfer reason =>
    simp only [ReassemblyPool.handle, Focus.handleCancel]
    split
    · rename_i inFlight hinFlight
      rw [filter_eq_some_iff] at hinFlight
      have hlt := hother inFlight hinFlight.1
      exact absurd (of_decide_eq_true hinFlight.2) (not_le.mpr hlt)
    · rfl

/-- A publication is of the transfer the frame names. -/
theorem handle_publishes {transfer : TransferId} (hpublishes : TransferOutcome.publishes
      (ReassemblyPool.handle codec limits nowMs focus message).1 = some transfer) :
    message.transfer = transfer := by
  cases message with
  | begin header =>
    simp only [ReassemblyPool.handle] at hpublishes
    rcases focus.handleBegin_cases limits header nowMs with ⟨result, heq, -, hnone, -⟩ |
      ⟨heq, -⟩ | ⟨-, -, -, -, inFlight, stagingBytes, -, heq⟩
    · rw [heq, hnone] at hpublishes
      exact nomatch hpublishes
    · rw [heq] at hpublishes
      exact nomatch hpublishes
    · rw [heq] at hpublishes
      exact nomatch hpublishes
  | chunk chunk =>
    simp only [ReassemblyPool.handle] at hpublishes
    rcases focus.handleChunk_cases codec chunk with ⟨-, -, hresult⟩ | ⟨inFlight, -, hid,
      heq | ⟨stored, -, assembled, -, hheader, houtcome⟩⟩
    · rw [hresult] at hpublishes
      split_ifs at hpublishes
      · exact nomatch hpublishes
      · exact nomatch hpublishes
    · rw [heq] at hpublishes
      exact nomatch hpublishes
    · rcases houtcome with ⟨outcome, heq, hnone, -⟩ | ⟨defect, heq⟩ | ⟨body, heq⟩
      · rw [heq, hnone] at hpublishes
        exact nomatch hpublishes
      · rw [heq] at hpublishes
        exact nomatch hpublishes
      · obtain ⟨kept, released, -, -, -, -, -, -, hcutover⟩ := stored.cutover_spec assembled body
        rw [heq, hcutover] at hpublishes
        show chunk.transfer = transfer
        rw [← Option.some.inj hpublishes, hheader, hid]
  | cancel epoch transfer reason =>
    simp only [ReassemblyPool.handle, Focus.handleCancel] at hpublishes
    split at hpublishes
    · exact nomatch hpublishes
    · exact nomatch hpublishes

end Frames

end Crpg.Net
