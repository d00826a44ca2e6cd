import Mathlib.Data.UInt
import Crpg.Core.Event
import Crpg.Lib.Run
import Crpg.Lib.Sorting

/-!
# Runs of the event queue

The saved form of a queue of `crpg-core/src/event.rs`, its loader, and what holds across any run of
pushes, drains and reloads. A history keeps the envelopes a queue started with and those pushed
since, drained or not.

The loader excepts a counter at `u64::MAX` from its check, and the counter stays there. A push after
number `u64::MAX` was issued issues it again (`spent_counter_repeats`); without such a push the
numbers ascend in push order and every state reached is saved and loaded back
(`histories_numbered`). The order of a drain needs no condition (`drain_pairwise`).
-/

set_option autoImplicit false

namespace Crpg.Core

open Crpg.Lib

variable {P : Type*}

/-! ### The saved form -/

/-- The saved form of an envelope. -/
structure EventEnvelopeRepr (P : Type*) where
  tick : UInt64
  seq : UInt64
  payload : P
deriving DecidableEq

/-- The saved form of a queue: `EventQueueRepr`. -/
structure EventQueueRepr (P : Type*) where
  envelopes : List (EventEnvelopeRepr P)
  nextSeq : UInt64
deriving DecidableEq

/-- What the loader refuses. -/
inductive EventQueueError
  | duplicateSequence (seq : UInt64)
  | staleNextSeq (nextSeq highest : UInt64)
deriving DecidableEq

namespace EventEnvelope

/-- The saved form. -/
def serialize (envelope : EventEnvelope P) : EventEnvelopeRepr P :=
  ⟨UInt64.ofNat envelope.tick, UInt64.ofNat envelope.seq, envelope.payload⟩

/-- The envelope of a saved form. -/
def deserialize (repr : EventEnvelopeRepr P) : EventEnvelope P :=
  ⟨repr.tick.toNat, repr.seq.toNat, repr.payload⟩

/-- The coordinates are machine integers. -/
def Fits (envelope : EventEnvelope P) : Prop := envelope.tick ≤ u64Max ∧ envelope.seq ≤ u64Max

theorem deserialize_serialize {envelope : EventEnvelope P} (hfits : envelope.Fits) :
    deserialize envelope.serialize = envelope := by
  have htick : envelope.tick < 2 ^ 64 := Nat.lt_succ_of_le hfits.1
  have hseq : envelope.seq < 2 ^ 64 := Nat.lt_succ_of_le hfits.2
  unfold deserialize serialize
  rw [UInt64.toNat_ofNat_of_lt' htick, UInt64.toNat_ofNat_of_lt' hseq]

theorem fits_deserialize (repr : EventEnvelopeRepr P) : (deserialize repr).Fits :=
  ⟨Nat.le_of_lt_succ repr.tick.toNat_lt, Nat.le_of_lt_succ repr.seq.toNat_lt⟩

end EventEnvelope

namespace EventQueue

/-- The loop of the loader over the envelopes: the numbers seen so far and their maximum. -/
def scanSequences (seen : List UInt64) (max : Option UInt64) :
    List (EventEnvelopeRepr P) → Except EventQueueError (Option UInt64)
  | [] => .ok max
  | envelope :: rest =>
    if envelope.seq ∈ seen then .error (.duplicateSequence envelope.seq)
    else
      scanSequences (envelope.seq :: seen)
        (some (max.elim envelope.seq fun current ↦ Max.max current envelope.seq)) rest

def deserialize (repr : EventQueueRepr P) : Except EventQueueError (EventQueue P) :=
  match scanSequences [] none repr.envelopes with
  | .error error => .error error
  | .ok (some highest) =>
    if repr.nextSeq ≠ 0xffffffffffffffff ∧ repr.nextSeq ≤ highest then
      .error (.staleNextSeq repr.nextSeq highest)
    else .ok ⟨repr.envelopes.map EventEnvelope.deserialize, repr.nextSeq.toNat⟩
  | .ok none => .ok ⟨repr.envelopes.map EventEnvelope.deserialize, repr.nextSeq.toNat⟩

def serialize (queue : EventQueue P) : EventQueueRepr P :=
  ⟨queue.envelopes.map EventEnvelope.serialize, UInt64.ofNat queue.nextSeq⟩

def seqs (envelopes : List (EventEnvelope P)) : List ℕ := envelopes.map EventEnvelope.seq

/-- The scan succeeds on new, distinct numbers; what it finds is their maximum. -/
theorem scanSequences_eq_ok_iff {seen : List UInt64} {max found : Option UInt64}
    {envelopes : List (EventEnvelopeRepr P)} : scanSequences seen max envelopes = .ok found ↔
      (envelopes.map EventEnvelopeRepr.seq).Nodup ∧ (∀ envelope ∈ envelopes, envelope.seq ∉ seen) ∧
        found = envelopes.foldl (fun max envelope ↦
          some (max.elim envelope.seq fun current ↦ Max.max current envelope.seq)) max := by
  induction envelopes generalizing seen max with
  | nil => simp [scanSequences, eq_comm]
  | cons envelope rest ih =>
    unfold scanSequences
    by_cases hseen : envelope.seq ∈ seen
    · simp [hseen]
    · rw [if_neg hseen, ih]
      rw [List.forall_mem_cons]
      simp only [List.map_cons, List.nodup_cons, List.foldl_cons, List.mem_cons, not_or,
        List.mem_map, not_exists, not_and]
      constructor
      · intro ⟨hnodup, hfresh, hfound⟩
        exact ⟨⟨fun other hother ↦ (hfresh other hother).1, hnodup⟩,
          ⟨hseen, fun other hother ↦ (hfresh other hother).2⟩, hfound⟩
      · intro ⟨⟨hhead, hnodup⟩, ⟨_, hfresh⟩, hfound⟩
        exact ⟨hnodup, fun other hother ↦ ⟨hhead other hother, hfresh other hother⟩, hfound⟩

theorem max_lt_iff {first second bound : UInt64} :
    Max.max first second < bound ↔ first < bound ∧ second < bound := by
  show (if first ≤ second then second else first) < bound ↔ _
  rw [UInt64.lt_iff_toNat_lt, UInt64.lt_iff_toNat_lt, UInt64.lt_iff_toNat_lt]
  split_ifs with hle
  · rw [UInt64.le_iff_toNat_le] at hle
    omega
  · rw [UInt64.le_iff_toNat_le] at hle
    omega

/-- The maximum of the scan is below a bound when every number is. -/
theorem foldl_max_lt_iff {bound : UInt64} {start : Option UInt64}
    {envelopes : List (EventEnvelopeRepr P)} : (∀ highest ∈ envelopes.foldl (fun max envelope ↦
        some (max.elim envelope.seq fun current ↦ Max.max current envelope.seq)) start,
      highest < bound) ↔
      (∀ highest ∈ start, highest < bound) ∧ ∀ envelope ∈ envelopes, envelope.seq < bound := by
  induction envelopes generalizing start with
  | nil => simp
  | cons envelope rest ih =>
    rw [List.foldl_cons, ih, List.forall_mem_cons, ← and_assoc]
    apply and_congr_left'
    cases start with
    | none => simp
    | some current => simp [max_lt_iff]

/-- What the loader takes: distinct numbers, below the counter unless that is saturated. -/
theorem deserialize_eq_ok_iff {repr : EventQueueRepr P} {queue : EventQueue P} :
    deserialize repr = .ok queue ↔ (repr.envelopes.map EventEnvelopeRepr.seq).Nodup ∧
        (repr.nextSeq = 0xffffffffffffffff ∨
          ∀ envelope ∈ repr.envelopes, envelope.seq < repr.nextSeq) ∧
        queue = ⟨repr.envelopes.map EventEnvelope.deserialize, repr.nextSeq.toNat⟩ := by
  have hbelow := @foldl_max_lt_iff P repr.nextSeq none repr.envelopes
  unfold deserialize
  cases hscan : scanSequences [] none repr.envelopes with
  | error error =>
    have hdup : ¬(repr.envelopes.map EventEnvelopeRepr.seq).Nodup := by
      intro hnodup
      have hok := (@scanSequences_eq_ok_iff P [] none _ repr.envelopes).mpr
        ⟨hnodup, fun envelope _ ↦ List.not_mem_nil, rfl⟩
      exact nomatch hscan.symm.trans hok
    simp [hdup]
  | ok found =>
    obtain ⟨hnodup, -, hfound⟩ := scanSequences_eq_ok_iff.mp hscan
    rw [← hfound] at hbelow
    cases found with
    | none =>
      have hall := (hbelow.mp fun _ ↦ nofun).2
      simp only [Except.ok.injEq, hnodup, true_and, or_iff_right_of_imp fun _ ↦ hall]
      exact ⟨fun heq ↦ ⟨hall, heq.symm⟩, fun heq ↦ heq.2.symm⟩
    | some highest =>
      simp only [Option.mem_def, Option.some.injEq, forall_eq', reduceCtorEq, false_imp_iff,
        forall_const, true_and] at hbelow
      rw [← hbelow, ← UInt64.not_le]
      dsimp only
      split_ifs with hstale
      · simp [hstale.1, hstale.2]
      · rw [not_and_or, not_not] at hstale
        rw [Except.ok.injEq]
        exact ⟨fun heq ↦ ⟨hnodup, hstale, heq.symm⟩, fun heq ↦ heq.2.2.symm⟩

/-! ### What a drain returns -/

section Drain

variable (queue : EventQueue P)

theorem drain_perm : queue.drain.1.Perm queue.envelopes := List.perm_insertionSort _ _

theorem drain_pairwise : queue.drain.1.Pairwise fun first second ↦
    toLex (first.tick, first.seq) ≤ toLex (second.tick, second.seq) :=
  pairwise_insertionSort_key (fun envelope : EventEnvelope P ↦
    toLex (envelope.tick, envelope.seq)) queue.envelopes

variable {queue}

theorem drain_keeps {first second : EventEnvelope P}
    (hqueued : [first, second].Sublist queue.envelopes)
    (hle : toLex (first.tick, first.seq) ≤ toLex (second.tick, second.seq)) :
    [first, second].Sublist queue.drain.1 :=
  List.pair_sublist_insertionSort hle hqueued

end Drain

/-! ### Saving and loading -/

section Reload

variable {queue : EventQueue P} (hfits : ∀ envelope ∈ queue.envelopes, envelope.Fits)
  (hcounter : queue.nextSeq ≤ u64Max)

include hfits hcounter

/-- The saved form holds what the queue did. -/
theorem deserialize_serialize : (⟨queue.serialize.envelopes.map EventEnvelope.deserialize,
    queue.serialize.nextSeq.toNat⟩ : EventQueue P) = queue := by
  have henvelopes : queue.serialize.envelopes.map EventEnvelope.deserialize = queue.envelopes := by
    unfold serialize
    rw [List.map_map]
    calc queue.envelopes.map (EventEnvelope.deserialize ∘ EventEnvelope.serialize)
        = queue.envelopes.map id := List.map_congr_left fun envelope henvelope ↦
          EventEnvelope.deserialize_serialize (hfits envelope henvelope)
      _ = queue.envelopes := List.map_id _
  have hnext : queue.serialize.nextSeq.toNat = queue.nextSeq :=
    UInt64.toNat_ofNat_of_lt' (Nat.lt_succ_of_le hcounter)
  rw [henvelopes, hnext]

theorem eq_of_reload {loaded : EventQueue P} (hload : deserialize queue.serialize = .ok loaded) :
    loaded = queue :=
  (deserialize_eq_ok_iff.mp hload).2.2.trans (deserialize_serialize hfits hcounter)

/-- The loader takes a saved queue whose numbers are distinct and below its counter, unless that is
saturated. -/
theorem reload_eq_ok (hnodup : (seqs queue.envelopes).Nodup) (hbelow : queue.nextSeq = u64Max ∨
    ∀ envelope ∈ queue.envelopes, envelope.seq < queue.nextSeq) :
    deserialize queue.serialize = .ok queue := by
  have hnext : queue.nextSeq < 2 ^ 64 := Nat.lt_succ_of_le hcounter
  have hseq : ∀ envelope ∈ queue.envelopes, envelope.seq < 2 ^ 64 := fun envelope henvelope ↦
    Nat.lt_succ_of_le (hfits envelope henvelope).2
  rw [deserialize_eq_ok_iff]
  refine ⟨?_, ?_, (deserialize_serialize hfits hcounter).symm⟩
  · apply List.Nodup.of_map UInt64.toNat
    unfold serialize
    rw [List.map_map, List.map_map]
    have hsame : queue.envelopes.map
        ((UInt64.toNat ∘ EventEnvelopeRepr.seq) ∘ EventEnvelope.serialize) =
          seqs queue.envelopes := List.map_congr_left fun envelope henvelope ↦
      UInt64.toNat_ofNat_of_lt' (hseq envelope henvelope)
    rw [hsame]
    exact hnodup
  · apply hbelow.imp
    · intro hspent
      show UInt64.ofNat queue.nextSeq = _
      rw [hspent]
      rfl
    · intro hbelow saved hsaved
      obtain ⟨envelope, henvelope, heq⟩ := List.mem_map.mp hsaved
      rw [← heq, UInt64.lt_iff_toNat_lt]
      show (UInt64.ofNat envelope.seq).toNat < (UInt64.ofNat queue.nextSeq).toNat
      rw [UInt64.toNat_ofNat_of_lt' (hseq envelope henvelope), UInt64.toNat_ofNat_of_lt' hnext]
      exact hbelow envelope henvelope

end Reload

end EventQueue

/-! ### Histories -/

inductive QueueEvent (P : Type*)
  | push (tick : UInt64) (payload : P)
  | drain
  | reload

/-- A queue with the envelopes it started with and those pushed since, drained or not. -/
structure QueueHistory (P : Type*) where
  queue : EventQueue P
  loaded : List (EventEnvelope P)
  pushed : List (EventEnvelope P)
deriving DecidableEq

namespace QueueHistory

def start (queue : EventQueue P) : QueueHistory P := ⟨queue, queue.envelopes, []⟩

def issued (history : QueueHistory P) : List (EventEnvelope P) := history.loaded ++ history.pushed

def afterPush (history : QueueHistory P) (tick : UInt64) (payload : P) : QueueHistory P :=
  { history with
    queue := history.queue.push tick.toNat payload
    pushed := history.pushed ++ [⟨tick.toNat, history.queue.nextSeq, payload⟩] }

/-- One event; `none` is a saved queue that the loader refuses. -/
def step (history : QueueHistory P) : QueueEvent P → Option (QueueHistory P)
  | .push tick payload => some (history.afterPush tick payload)
  | .drain => some { history with queue := history.queue.drain.2 }
  | .reload =>
    match EventQueue.deserialize history.queue.serialize with
    | .ok queue => some { history with queue := queue }
    | .error _ => none

/-- A push is allowed until number `u64::MAX` is issued; drains and reloads always are. -/
def Allowed (history : QueueHistory P) : QueueEvent P → Prop
  | .push _ _ => u64Max ∉ EventQueue.seqs history.issued
  | .drain => True
  | .reload => True

/-- What holds in every history: the numbers ever issued are at most the counter and never descend
in push order, and the queue holds its envelopes in that order. -/
structure Ordered (history : QueueHistory P) : Prop where
  counter : history.queue.nextSeq ≤ u64Max
  fits : ∀ envelope ∈ history.issued, envelope.Fits
  queued : history.queue.envelopes.Sublist history.issued
  bounded : ∀ envelope ∈ history.issued, envelope.seq ≤ history.queue.nextSeq
  ascending : history.issued.Pairwise fun first second ↦
    second ∈ history.pushed → first.seq ≤ second.seq

/-- What holds while every push is allowed: the numbers ever issued are distinct, and below the
counter unless that is saturated. -/
structure Numbered (history : QueueHistory P) : Prop extends history.Ordered where
  nodup : (EventQueue.seqs history.issued).Nodup
  below : history.queue.nextSeq = u64Max ∨
    ∀ envelope ∈ history.issued, envelope.seq < history.queue.nextSeq

theorem numbered_start {queue : EventQueue P}
    (hstart : queue = .new ∨ ∃ repr, EventQueue.deserialize repr = .ok queue) :
    (start queue).Numbered := by
  have hrepr : ∃ repr, EventQueue.deserialize repr = .ok queue := by
    apply hstart.elim
    · intro hnew
      exact ⟨⟨[], 0⟩, congrArg _ hnew.symm⟩
    · exact id
  obtain ⟨repr, hload⟩ := hrepr
  obtain ⟨hnodup, hbelow, heq⟩ := EventQueue.deserialize_eq_ok_iff.mp hload
  have hissued : (start queue).issued = repr.envelopes.map EventEnvelope.deserialize := by
    rw [heq]
    exact List.append_nil _
  have hnext : (start queue).queue.nextSeq = repr.nextSeq.toNat := by rw [heq]; rfl
  have hcounter : repr.nextSeq.toNat ≤ u64Max := Nat.le_of_lt_succ repr.nextSeq.toNat_lt
  have hlow : repr.nextSeq.toNat = u64Max ∨
      ∀ envelope ∈ repr.envelopes.map EventEnvelope.deserialize,
        envelope.seq < repr.nextSeq.toNat := by
    apply hbelow.imp
    · intro hspent
      rw [hspent]
      rfl
    · intro hbelow
      rw [List.forall_mem_map]
      exact fun envelope henvelope ↦ UInt64.lt_iff_toNat_lt.mp (hbelow envelope henvelope)
  have hfits : ∀ envelope ∈ repr.envelopes.map EventEnvelope.deserialize, envelope.Fits := by
    rw [List.forall_mem_map]
    exact fun envelope _ ↦ EventEnvelope.fits_deserialize envelope
  refine ⟨⟨?_, ?_, ?_, ?_, ?_⟩, ?_, ?_⟩
  · rw [hnext]
    exact hcounter
  · rw [hissued]
    exact hfits
  · show queue.envelopes.Sublist (queue.envelopes ++ [])
    rw [List.append_nil]
  · rw [hissued, hnext]
    intro envelope henvelope
    apply hlow.elim
    · intro hspent
      rw [hspent]
      exact (hfits envelope henvelope).2
    · exact fun hbelow ↦ (hbelow envelope henvelope).le
  · exact List.Pairwise.imp (fun _ hpushed ↦ absurd hpushed List.not_mem_nil)
      (List.pairwise_of_forall fun _ _ ↦ trivial)
  · rw [hissued, EventQueue.seqs, List.map_map]
    have hseqs := hnodup.map fun first second ↦ UInt64.toNat_inj.mp
    rw [List.map_map] at hseqs
    exact hseqs
  · rw [hissued, hnext]
    exact hlow

/-! ### Steps -/

variable {history next : QueueHistory P}

theorem issued_afterPush (history : QueueHistory P) (tick : UInt64) (payload : P) :
    (history.afterPush tick payload).issued =
      history.issued ++ [⟨tick.toNat, history.queue.nextSeq, payload⟩] :=
  (List.append_assoc _ _ _).symm

theorem Ordered.step_cases (hordered : history.Ordered) {event : QueueEvent P}
    (hstep : history.step event = some next) :
    (∃ tick payload, event = .push tick payload ∧ next = history.afterPush tick payload) ∨
      next = { history with queue := history.queue.drain.2 } ∨ next = history := by
  cases event with
  | push tick payload => exact Or.inl ⟨tick, payload, rfl, (Option.some.inj hstep).symm⟩
  | drain => exact Or.inr (Or.inl (Option.some.inj hstep).symm)
  | reload =>
    have hfits : ∀ envelope ∈ history.queue.envelopes, envelope.Fits := fun envelope henvelope ↦
      hordered.fits envelope (hordered.queued.subset henvelope)
    unfold step at hstep
    cases hload : EventQueue.deserialize history.queue.serialize with
    | error error =>
      rw [hload] at hstep
      exact nomatch hstep
    | ok loaded =>
      rw [hload, EventQueue.eq_of_reload hfits hordered.counter hload] at hstep
      exact Or.inr (Or.inr (Option.some.inj hstep).symm)

theorem Ordered.afterPush (hordered : history.Ordered) (tick : UInt64) (payload : P) :
    (history.afterPush tick payload).Ordered := by
  have hcounter := hordered.counter
  have hnext : (history.afterPush tick payload).queue.nextSeq =
    min u64Max (history.queue.nextSeq + 1) := rfl
  have hgrows : history.queue.nextSeq ≤ (history.afterPush tick payload).queue.nextSeq := by
    rw [hnext]
    omega
  refine ⟨?_, ?_, ?_, ?_, ?_⟩
  · rw [hnext]
    exact Nat.min_le_left _ _
  · rw [issued_afterPush, List.forall_mem_append, List.forall_mem_singleton]
    exact ⟨hordered.fits, Nat.le_of_lt_succ tick.toNat_lt, hcounter⟩
  · rw [issued_afterPush]
    exact hordered.queued.append (List.Sublist.refl _)
  · rw [issued_afterPush, List.forall_mem_append, List.forall_mem_singleton]
    exact ⟨fun envelope henvelope ↦ (hordered.bounded envelope henvelope).trans hgrows, hgrows⟩
  · rw [issued_afterPush, List.pairwise_append]
    refine ⟨hordered.ascending.imp_of_mem ?_, List.pairwise_singleton _ _, ?_⟩
    · intro first second hfirst _ hkept hpushed
      rw [QueueHistory.afterPush, List.mem_append, List.mem_singleton] at hpushed
      apply hpushed.elim hkept
      intro hnew
      rw [hnew]
      exact hordered.bounded first hfirst
    · intro first hfirst second hsecond _
      rw [List.mem_singleton.mp hsecond]
      exact hordered.bounded first hfirst

theorem Ordered.step (hordered : history.Ordered) {event : QueueEvent P}
    (hstep : history.step event = some next) : next.Ordered := by
  rcases hordered.step_cases hstep with ⟨tick, payload, -, rfl⟩ | rfl | rfl
  · exact hordered.afterPush tick payload
  · exact { hordered with queued := List.nil_sublist _ }
  · exact hordered

theorem Numbered.step (hnumbered : history.Numbered) {event : QueueEvent P}
    (hallowed : history.Allowed event) (hstep : history.step event = some next) :
    next.Numbered := by
  rcases hnumbered.step_cases hstep with ⟨tick, payload, rfl, rfl⟩ | rfl | rfl
  · have hfresh : ∀ envelope ∈ history.issued, envelope.seq < history.queue.nextSeq := by
      intro envelope henvelope
      apply hnumbered.below.elim
      · intro hspent
        apply lt_of_le_of_ne (hnumbered.bounded envelope henvelope)
        intro hsame
        exact hallowed (List.mem_map.mpr ⟨envelope, henvelope, hsame.trans hspent⟩)
      · exact fun hbelow ↦ hbelow envelope henvelope
    have hnext : (history.afterPush tick payload).queue.nextSeq =
      min u64Max (history.queue.nextSeq + 1) := rfl
    refine ⟨hnumbered.toOrdered.afterPush tick payload, ?_, ?_⟩
    · rw [issued_afterPush, EventQueue.seqs, List.map_append, List.nodup_append]
      refine ⟨hnumbered.nodup, List.nodup_singleton _, ?_⟩
      intro first hfirst second hsecond heq
      obtain ⟨envelope, henvelope, hseq⟩ := List.mem_map.mp hfirst
      have hlow := hfresh envelope henvelope
      rw [hseq, heq, List.mem_singleton.mp hsecond] at hlow
      exact absurd hlow (lt_irrefl _)
    · rw [hnext, issued_afterPush]
      by_cases hspent : history.queue.nextSeq + 1 ≤ u64Max
      · apply Or.inr
        rw [min_eq_right hspent, List.forall_mem_append, List.forall_mem_singleton]
        exact ⟨fun envelope henvelope ↦ Nat.lt_succ_of_lt (hfresh envelope henvelope),
          Nat.lt_succ_self _⟩
      · exact Or.inl (min_eq_left (Nat.le_of_not_le hspent))
  · exact { hnumbered with queued := List.nil_sublist _ }
  · exact hnumbered

theorem Ordered.drain_keeps (hordered : history.Ordered) {first second : EventEnvelope P}
    (hqueued : [first, second].Sublist history.queue.envelopes)
    (hpushed : second ∈ history.pushed) (htick : first.tick = second.tick) :
    [first, second].Sublist history.queue.drain.1 := by
  apply EventQueue.drain_keeps hqueued
  have hseq := List.pairwise_pair.mp
    (hordered.ascending.sublist (hqueued.trans hordered.queued)) hpushed
  rw [Prod.Lex.toLex_le_toLex]
  exact Or.inr ⟨htick, hseq⟩

theorem Numbered.reload (hnumbered : history.Numbered) :
    EventQueue.deserialize history.queue.serialize = .ok history.queue := by
  apply EventQueue.reload_eq_ok
    (fun envelope henvelope ↦ hnumbered.fits envelope (hnumbered.queued.subset henvelope))
    hnumbered.counter
  · exact hnumbered.nodup.sublist (hnumbered.queued.map EventEnvelope.seq)
  · apply hnumbered.below.imp_right
    exact fun hbelow envelope henvelope ↦ hbelow envelope (hnumbered.queued.subset henvelope)

/-- A push after number `u64::MAX` was issued issues it again. -/
theorem Numbered.spent_counter_repeats (hnumbered : history.Numbered)
    (hspent : u64Max ∈ EventQueue.seqs history.issued) (tick : UInt64) (payload : P) :
    ¬(EventQueue.seqs (history.afterPush tick payload).issued).Nodup := by
  obtain ⟨envelope, henvelope, hseq⟩ := List.mem_map.mp hspent
  have hnext : history.queue.nextSeq = u64Max := by
    have hbounded := hnumbered.bounded envelope henvelope
    rw [hseq] at hbounded
    exact le_antisymm hnumbered.counter hbounded
  rw [issued_afterPush, EventQueue.seqs, List.map_append, List.nodup_append]
  intro ⟨_, _, hdistinct⟩
  exact hdistinct u64Max hspent history.queue.nextSeq (List.mem_singleton.mpr rfl) hnext.symm

/-- Histories of the event queue. Assumes: a queue that is new or accepted by the loader. In every
history a drain returns the queued envelopes in ascending order of tick and number, and those pushed
since the start in push order inside a tick. While no push follows the issue of number `u64::MAX`,
the envelopes ever issued have distinct numbers and every state is saved and loaded back; a push
after that repeats the number. -/
theorem histories_numbered {queue : EventQueue P}
    (hstart : queue = .new ∨ ∃ repr, EventQueue.deserialize repr = .ok queue) :
    (∀ events history, run step (start queue) events = some history →
      history.queue.drain.1.Perm history.queue.envelopes ∧
      (history.queue.drain.1.Pairwise fun first second ↦
        toLex (first.tick, first.seq) ≤ toLex (second.tick, second.seq)) ∧
      history.queue.envelopes.Sublist history.issued ∧
      ∀ first second, [first, second].Sublist history.queue.envelopes →
        second ∈ history.pushed → first.tick = second.tick →
        [first, second].Sublist history.queue.drain.1) ∧
    ∀ history, Reaches step Allowed (start queue) history →
      (EventQueue.seqs history.issued).Nodup ∧
      EventQueue.deserialize history.queue.serialize = .ok history.queue ∧
      (u64Max ∈ EventQueue.seqs history.issued → ∀ tick payload next,
        history.step (.push tick payload) = some next →
        ¬(EventQueue.seqs next.issued).Nodup) := by
  have hnumbered := numbered_start hstart
  constructor
  · intro events history hrun
    have hordered : history.Ordered :=
      run_preserves (fun _ _ _ hstate hstep ↦ hstate.step hstep) hnumbered.toOrdered hrun
    exact ⟨history.queue.drain_perm, history.queue.drain_pairwise, hordered.queued,
      fun first second hqueued hpushed htick ↦ hordered.drain_keeps hqueued hpushed htick⟩
  · intro history hreaches
    have hkept : history.Numbered := hreaches.preserves
      (fun _ _ _ hstate hallowed hstep ↦ hstate.step hallowed hstep) hnumbered
    refine ⟨hkept.nodup, hkept.reload, fun hspent tick payload next hstep ↦ ?_⟩
    rw [← Option.some.inj hstep]
    exact hkept.spent_counter_repeats hspent tick payload

/-- A queue that starts empty, takes two pushes out of order and is reloaded. -/
theorem two_pushes_numbered : ∃ history : QueueHistory String,
    run step (start .new) [.push 2 "late", .push 1 "early", .reload] = some history ∧
      history.queue.drain.1.Perm history.queue.envelopes := by
  have hhistory : run step (start (.new : EventQueue String))
      [.push 2 "late", .push 1 "early", .reload] =
        some ⟨⟨[⟨2, 0, "late"⟩, ⟨1, 1, "early"⟩], 2⟩, [],
          [⟨2, 0, "late"⟩, ⟨1, 1, "early"⟩]⟩ := by decide +kernel
  exact ⟨_, hhistory, ((histories_numbered (Or.inl rfl)).1 _ _ hhistory).1⟩

/-- A loaded queue whose counter is saturated numbers two pushes alike, and its saved form is
refused. -/
theorem saturated_pushes_share_number : ∃ (repr : EventQueueRepr String) (queue : EventQueue String)
    (history : QueueHistory String), EventQueue.deserialize repr = .ok queue ∧
      run step (start queue) [.push 0 "first", .push 0 "second"] = some history ∧
      ¬(EventQueue.seqs history.issued).Nodup ∧ EventQueue.deserialize history.queue.serialize =
        .error (.duplicateSequence 0xffffffffffffffff) := by
  refine ⟨⟨[], 0xffffffffffffffff⟩, ⟨[], u64Max⟩, ⟨⟨[⟨0, u64Max, "first"⟩, ⟨0, u64Max, "second"⟩],
    u64Max⟩, [], [⟨0, u64Max, "first"⟩, ⟨0, u64Max, "second"⟩]⟩, ?_, ?_, ?_, ?_⟩
  · rfl
  · decide +kernel
  · decide +kernel
  · rfl

end QueueHistory

end Crpg.Core
