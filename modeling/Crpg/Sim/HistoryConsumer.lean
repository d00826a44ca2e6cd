import Crpg.Sim.NaturalEndRun

/-!
# A consumer of a history

`crpg-sim/src/history.rs`. A consumer reads pages after its cursor, moves the cursor to the last
sequence of each page, and acknowledges only what it has read. Between its calls the history is
operated on, with success or failure, and may be saved and loaded again.

`Delivering` is the invariant. The journal retains exactly what was committed after the watermark,
the watermark is not past the cursor, and the consumer has received what was committed up to its
cursor. So the offset `read_after` computes from the watermark is the right one, and every page
continues where the last one ended.

The codec of the inner world is a parameter: a load that returns gives back the saved world.
-/

set_option autoImplicit false

namespace Crpg.Sim

open Crpg.Core Crpg.Lib Crpg.Rules Crpg.Data
open Result (bind_ok_iff pure_ok_iff)

/-! ### What an operation does to the journal -/

/-- A history after an operation: envelopes are only appended, and the watermark stays. -/
structure Extends (history next : HistoryWorld) (added : List HistoryEnvelope) : Prop where
  pending : next.pending.envelopes = history.pending.envelopes ++ added
  acknowledged : next.acknowledged = history.acknowledged

namespace Extends

variable {history next : HistoryWorld}

theorem refl (history : HistoryWorld) : Extends history history [] :=
  ⟨(List.append_nil _).symm, rfl⟩

theorem commitDrained {staged : World}
    {collect : List SimEvent → Result HistoryError (List HistoryEvent)}
    (hcommit : history.commitDrained staged collect = .ok next) :
    ∃ added, Extends history next added := by
  obtain ⟨events, -, hcommit⟩ := Result.bind_eq_ok_iff.mp hcommit
  simp only [HistoryWorld.commit, bind_ok_iff, pure_ok_iff] at hcommit
  obtain ⟨_, -, _, -, _, -, final, -, rfl⟩ := hcommit
  exact ⟨final.envelopes, rfl, rfl⟩

theorem spawnWithCreature {data : EntityMeta} {creature : Option CreatureState} {id : EntityId}
    (hspawn : history.spawnWithCreature data creature = .ok (id, next)) :
    ∃ added, Extends history next added := by
  simp only [HistoryWorld.spawnWithCreature, bind_ok_iff, pure_ok_iff, Prod.mk.injEq] at hspawn
  obtain ⟨_, -, after, hcommit, -, rfl⟩ := hspawn
  exact commitDrained hcommit

theorem despawn {entity : EntityId} {removed : Bool}
    (hdespawn : history.despawn entity = .ok (removed, next)) :
    ∃ added, Extends history next added := by
  simp only [HistoryWorld.despawn, bind_ok_iff, pure_ok_iff, Prod.mk.injEq] at hdespawn
  obtain ⟨_, -, after, hcommit, -, rfl⟩ := hdespawn
  exact commitDrained hcommit

end Extends

/-- Whether an operation is an acknowledgement. -/
def HistoryOp.isAcknowledge : HistoryOp → Bool
  | .acknowledge _ => true
  | _ => false

/-- Every operation but an acknowledgement keeps the journal and only appends to it. -/
theorem Journaled.operate {history next : HistoryWorld} (hjournaled : Journaled history)
    {op : HistoryOp} (hop : op.isAcknowledge = false) (hstep : history.step op = some next) :
    Journaled next ∧ ∃ added, Extends history next added := by
  have hsame : Journaled history ∧ ∃ added, Extends history history added :=
    ⟨hjournaled, [], Extends.refl history⟩
  cases op with
  | spawn data =>
    refine after_elim hstep hsame ?_
    rintro ⟨id, after⟩ hreturned
    exact ⟨(hjournaled.spawnWithCreature hreturned).1, Extends.spawnWithCreature hreturned⟩
  | registerCreature spec =>
    refine after_elim hstep hsame ?_
    rintro ⟨id, after⟩ hreturned
    refine ⟨hjournaled.registerCreature hreturned, ?_⟩
    simp only [HistoryWorld.registerCreature, bind_ok_iff, pure_ok_iff, Prod.mk.injEq] at hreturned
    obtain ⟨_, -, _, hcommit, -, rfl⟩ := hreturned
    exact Extends.commitDrained hcommit
  | despawn entity =>
    refine after_elim hstep hsame ?_
    rintro ⟨removed, after⟩ hreturned
    exact ⟨hjournaled.despawn hreturned, Extends.despawn hreturned⟩
  | tick =>
    refine after_elim hstep hsame fun after hreturned ↦ ?_
    refine ⟨hjournaled.tick hreturned, ?_⟩
    simp only [HistoryWorld.tick, bind_ok_iff] at hreturned
    obtain ⟨_, -, hcommit⟩ := hreturned
    exact Extends.commitDrained hcommit
  | startEncounterInMode spec mode =>
    refine after_elim hstep hsame fun after hreturned ↦ ?_
    refine ⟨hjournaled.startEncounterInMode hreturned, ?_⟩
    simp only [HistoryWorld.startEncounterInMode, bind_ok_iff] at hreturned
    obtain ⟨_, -, hcommit⟩ := hreturned
    exact Extends.commitDrained hcommit
  | performAction action =>
    refine after_elim hstep hsame ?_
    rintro ⟨outcome, after⟩ hreturned
    refine ⟨hjournaled.performAction hreturned, ?_⟩
    simp only [HistoryWorld.performAction, bind_ok_iff, pure_ok_iff, Prod.mk.injEq] at hreturned
    obtain ⟨_, -, _, hcommit, -, rfl⟩ := hreturned
    exact Extends.commitDrained hcommit
  | endEncounter =>
    refine after_elim hstep hsame ?_
    rintro ⟨summary, after⟩ hreturned
    refine ⟨hjournaled.endEncounter hreturned, ?_⟩
    simp only [HistoryWorld.endEncounter, bind_ok_iff, pure_ok_iff, Prod.mk.injEq] at hreturned
    obtain ⟨_, -, _, hcommit, -, rfl⟩ := hreturned
    exact Extends.commitDrained hcommit
  | requestMode mode =>
    refine after_elim hstep hsame fun after hreturned ↦ ?_
    refine ⟨hjournaled.requestMode hreturned, ?_⟩
    simp only [HistoryWorld.requestMode, bind_ok_iff] at hreturned
    obtain ⟨_, -, hcommit⟩ := hreturned
    exact Extends.commitDrained hcommit
  | acknowledge through => simp [HistoryOp.isAcknowledge] at hop
  | transferOut destination entity =>
    refine after_elim hstep hsame ?_
    rintro ⟨moved, left, entered⟩ hreturned
    obtain ⟨removed, hremoved, -⟩ := transferOut_cases hreturned
    exact ⟨hjournaled.despawn hremoved, Extends.despawn hremoved⟩
  | transferIn source entity =>
    refine after_elim hstep hsame ?_
    rintro ⟨moved, left, entered⟩ hreturned
    obtain ⟨data, spawned, hspawned, rfl⟩ := transferIn_cases hreturned
    obtain ⟨hjoined, hlive⟩ := hjournaled.spawnWithCreature hspawned
    obtain ⟨added, hadded⟩ := Extends.spawnWithCreature hspawned
    exact ⟨hjoined.attachTransform hlive _, added, hadded.pending, hadded.acknowledged⟩

/-! ### The consumer -/

/-- A history and its consumer. `committed` lists every envelope ever committed. -/
structure Consumption where
  history : HistoryWorld
  cursor : ℕ
  received : List HistoryEnvelope
  committed : List HistoryEnvelope

/-- One event of an interleaving. -/
inductive ConsumerOp
  /-- An operation on the history, other than an acknowledgement. -/
  | operate (op : HistoryOp)
  /-- The consumer reads a page after its cursor. -/
  | read (limit : ℕ)
  /-- The consumer acknowledges what it has read. -/
  | acknowledge (through : ℕ)
  /-- The history is saved and loaded again. -/
  | reload

namespace Consumption

/-- A consumer of a new history. -/
def start (history : HistoryWorld) : Consumption := ⟨history, 0, [], []⟩

/-- The consumer with a page: the cursor moves to its last sequence. -/
def receive (state : Consumption) (page : List HistoryEnvelope) : Consumption :=
  { state with
    received := state.received ++ page
    cursor := (page.getLast?.map HistoryEnvelope.seq).getD state.cursor }

section Codec

variable (encodeWorld : World → Json) (decodeWorld : Json → Except String World)

/-- Takes a step of an interleaving; `none` for a panic, for an acknowledgement past the cursor and
for a load that refuses. -/
def step (state : Consumption) : ConsumerOp → Option Consumption
  | .operate op =>
    if op.isAcknowledge then none
    else (state.history.step op).map fun next ↦ { state with
      history := next
      committed := state.committed ++
        next.pending.envelopes.drop state.history.pending.envelopes.length }
  | .read limit =>
    match state.history.readAfter state.cursor limit with
    | .ok page => some (state.receive page)
    | .err _ => some state
    | .panic => none
  | .acknowledge through =>
    if through ≤ state.cursor then
      (state.history.step (.acknowledge through)).map fun next ↦ { state with history := next }
    else none
  | .reload =>
    match HistoryWorld.decode decodeWorld (state.history.encode encodeWorld) with
    | .ok next => some { state with history := next }
    | .error _ => none

end Codec

/-! ### The invariant -/

/-- The invariant of a history and its consumer. -/
structure Delivering (state : Consumption) : Prop where
  journaled : Journaled state.history
  retained : state.committed.drop state.history.acknowledged = state.history.pending.envelopes
  issued : state.committed.length + 1 = state.history.nextSeq
  watermark : state.history.acknowledged ≤ state.cursor
  cursor : state.cursor ≤ state.committed.length
  received : state.received = state.committed.take state.cursor
  numbered : state.committed.map HistoryEnvelope.seq = List.range' 1 state.committed.length

variable {state next : Consumption}

theorem delivering_start {history : HistoryWorld} (hjournaled : Journaled history)
    (hnext : history.nextSeq = 1) : (start history).Delivering := by
  have hempty := hjournaled.next
  have hlength : history.pending.envelopes.length = 0 := by omega
  have hnothing : history.acknowledged = 0 := by omega
  refine ⟨hjournaled, ?_, hnext.symm, hnothing.le, le_refl _, rfl, rfl⟩
  exact List.drop_nil.trans (List.eq_nil_of_length_eq_zero hlength).symm

section

variable (hstate : state.Delivering)
include hstate

/-- An operation appends to what was committed. -/
theorem Delivering.operate {history : HistoryWorld} {added : List HistoryEnvelope}
    (hjournaled : Journaled history) (hadded : Extends state.history history added) :
    Delivering { state with
      history := history
      committed := state.committed ++
        history.pending.envelopes.drop state.history.pending.envelopes.length } := by
  have hdrop : history.pending.envelopes.drop state.history.pending.envelopes.length = added := by
    rw [hadded.pending, List.drop_left]
  have hold := hstate.journaled.next
  have hnew := hjournaled.next
  have hissued := hstate.issued
  have hwatermark := hstate.watermark.trans hstate.cursor
  rw [hadded.pending, List.length_append, hadded.acknowledged] at hnew
  rw [hdrop]
  refine ⟨hjournaled, ?_, ?_, hadded.acknowledged.le.trans hstate.watermark, ?_, ?_, ?_⟩
  · rw [hadded.acknowledged, List.drop_append_of_le_length hwatermark, hstate.retained,
      hadded.pending]
  · rw [List.length_append]
    show state.committed.length + added.length + 1 = history.nextSeq
    omega
  · rw [List.length_append]
    exact hstate.cursor.trans (Nat.le_add_right _ _)
  · rw [List.take_append_of_le_length hstate.cursor]
    exact hstate.received
  · have hseqs := hjournaled.seqs
    rw [hadded.pending, List.map_append, hstate.journaled.seqs, List.length_append,
      ← List.range'_append_1, hadded.acknowledged] at hseqs
    have hlast := List.append_cancel_left hseqs
    rw [List.map_append, hstate.numbered, hlast, List.length_append, ← List.range'_append_1]
    congr 2
    omega

theorem Delivering.readAfter {limit : ℕ} (hpositive : 1 ≤ limit) (hpage : limit ≤ maxHistoryPage) :
    state.history.readAfter state.cursor limit =
      .ok ((state.committed.drop state.cursor).take limit) := by
  have hissued := hstate.issued
  have hcursor := hstate.cursor
  have hlimit : ¬ (limit = 0 ∨ limit > maxHistoryPage) := by omega
  have hlast : ¬ state.cursor > state.history.lastSequence := by
    rw [HistoryWorld.lastSequence]
    omega
  have hsplit : state.history.pending.envelopes.drop (state.cursor - state.history.acknowledged) =
      state.committed.drop state.cursor := by
    rw [← hstate.retained, List.drop_drop, Nat.add_sub_cancel' hstate.watermark]
  simp only [HistoryWorld.readAfter, Result.failIf, if_neg hlimit,
    if_neg (not_lt.mpr hstate.watermark), if_neg hlast, Result.bind_eq, Result.ok_bind,
    Result.pure_eq, hsplit]

/-- The last sequence of a page is where it ends. -/
theorem Delivering.cursor_receive (limit : ℕ) :
    (state.receive ((state.committed.drop state.cursor).take limit)).cursor =
      min (state.cursor + limit) state.committed.length := by
  have hcursor := hstate.cursor
  simp only [receive]
  have hseqs : ((state.committed.drop state.cursor).take limit).map HistoryEnvelope.seq =
      List.range' (state.cursor + 1) (min limit (state.committed.length - state.cursor)) := by
    rw [List.map_take, List.map_drop, hstate.numbered, List.drop_range', Nat.mul_one,
      Nat.add_comm 1]
    rcases le_total limit (state.committed.length - state.cursor) with hshort | hlong
    · rw [List.take_range'_of_length_ge hshort, min_eq_left hshort]
    · rw [List.take_range'_of_length_le hlong, min_eq_right hlong]
  rw [← List.getLast?_map, hseqs, List.getLast?_range']
  split_ifs with hempty
  · rw [Option.getD_none]
    omega
  · rw [Option.getD_some]
    omega

/-- Receiving a page keeps the invariant. -/
theorem Delivering.receive (limit : ℕ) :
    (state.receive ((state.committed.drop state.cursor).take limit)).Delivering := by
  have hcursor := hstate.cursor
  have hwatermark := hstate.watermark
  have hmoved := hstate.cursor_receive limit
  refine ⟨hstate.journaled, hstate.retained, hstate.issued, ?_, ?_, ?_, hstate.numbered⟩
  · rw [hmoved]
    show state.history.acknowledged ≤ _
    omega
  · rw [hmoved]
    exact min_le_right _ _
  · rw [hmoved]
    show state.received ++ _ = state.committed.take (min (state.cursor + limit) _)
    rw [hstate.received, ← List.take_add, List.take_eq_take_min]

/-- An acknowledgement of what was read keeps the invariant. -/
theorem Delivering.acknowledge {through : ℕ} {history : HistoryWorld}
    (hread : through ≤ state.cursor)
    (hacknowledge : state.history.acknowledge through = .ok history) :
    Delivering { state with history := history } := by
  have hjournaled := hstate.journaled.acknowledge hacknowledge
  unfold HistoryWorld.acknowledge at hacknowledge
  split_ifs at hacknowledge with hfuture hstale
  · rw [Result.ok.injEq] at hacknowledge
    subst hacknowledge
    exact hstate
  · rw [Result.ok.injEq] at hacknowledge
    refine ⟨hjournaled, ?_, ?_, ?_, hstate.cursor, hstate.received, hstate.numbered⟩
    · rw [← hacknowledge]
      show _ = (state.history.pending.drainPrefix _).envelopes
      rw [Journal.envelopes_drainPrefix, ← hstate.retained, List.drop_drop,
        Nat.add_sub_cancel' (not_le.mp hstale).le]
    · rw [← hacknowledge]
      exact hstate.issued
    · rw [← hacknowledge]
      exact hread

/-- A load that returns gives back the history. Assumes: a codec of the world whose loads give back
the saved world. -/
theorem Delivering.reload {encodeWorld : World → Json} {decodeWorld : Json → Except String World}
    {history : HistoryWorld}
    (hcodec : ∀ world loaded, decodeWorld (encodeWorld world) = .ok loaded → loaded = world)
    (hload : HistoryWorld.decode decodeWorld (state.history.encode encodeWorld) = .ok history) :
    history = state.history := by
  cases hworld : decodeWorld (encodeWorld state.history.world) with
  | error refusal =>
    rw [hstate.journaled.decode_eq, hworld] at hload
    simp [Except.bind] at hload
  | ok world =>
    have hsame := hcodec _ _ hworld
    rw [hsame] at hworld
    rw [(hstate.journaled.decode_encode encodeWorld decodeWorld).mpr hworld, Except.ok.injEq]
      at hload
    exact hload.symm

end

section Codec

variable {encodeWorld : World → Json} {decodeWorld : Json → Except String World}

theorem Delivering.step
    (hcodec : ∀ world loaded, decodeWorld (encodeWorld world) = .ok loaded → loaded = world)
    (hstate : state.Delivering) {op : ConsumerOp}
    (hstep : state.step encodeWorld decodeWorld op = some next) : next.Delivering := by
  cases op with
  | operate op =>
    simp only [Consumption.step] at hstep
    split_ifs at hstep with hop
    obtain ⟨history, hhistory, rfl⟩ := Option.map_eq_some_iff.mp hstep
    obtain ⟨hjournaled, added, hadded⟩ :=
      hstate.journaled.operate (Bool.not_eq_true _ ▸ hop) hhistory
    exact hstate.operate hjournaled hadded
  | read limit =>
    simp only [Consumption.step] at hstep
    split at hstep
    · rename_i page hpage
      rw [Option.some.injEq] at hstep
      subst hstep
      have hlimit : 1 ≤ limit ∧ limit ≤ maxHistoryPage := by
        simp only [HistoryWorld.readAfter, bind_ok_iff, Result.failIf_eq_ok_iff] at hpage
        obtain ⟨_, hlimit, -⟩ := hpage
        omega
      rw [hstate.readAfter hlimit.1 hlimit.2, Result.ok.injEq] at hpage
      exact hpage ▸ hstate.receive limit
    · exact Option.some.inj hstep ▸ hstate
    · simp at hstep
  | acknowledge through =>
    simp only [Consumption.step] at hstep
    split_ifs at hstep with hread
    obtain ⟨history, hhistory, rfl⟩ := Option.map_eq_some_iff.mp hstep
    exact after_elim (motive := fun history ↦ Delivering { state with history := history })
      hhistory hstate fun _ hreturned ↦ hstate.acknowledge hread hreturned
  | reload =>
    simp only [Consumption.step] at hstep
    split at hstep
    · rename_i history hload
      rw [Option.some.injEq] at hstep
      rw [hstate.reload hcodec hload] at hstep
      exact hstep ▸ hstate
    · simp at hstep

/-- A read with an admitted limit returns, moves the cursor by the limit or to the end, and touches
nothing else. -/
theorem Delivering.step_read (hstate : state.Delivering) {limit : ℕ} (hpositive : 1 ≤ limit)
    (hpage : limit ≤ maxHistoryPage) :
    ∃ after, state.step encodeWorld decodeWorld (.read limit) = some after ∧ after.Delivering ∧
      after.committed = state.committed ∧
      after.cursor = min (state.cursor + limit) state.committed.length := by
  refine ⟨_, ?_, hstate.receive limit, rfl, hstate.cursor_receive limit⟩
  simp only [Consumption.step, hstate.readAfter hpositive hpage]

theorem Delivering.drains (hstate : state.Delivering) {limits : List ℕ}
    (hlimits : ∀ limit ∈ limits, 1 ≤ limit ∧ limit ≤ maxHistoryPage)
    (hmany : state.committed.length ≤ state.cursor + limits.length) :
    ∃ final, run (Consumption.step encodeWorld decodeWorld) state (limits.map .read) =
      some final ∧ final.received = state.committed := by
  induction limits generalizing state with
  | nil =>
    refine ⟨state, rfl, ?_⟩
    rw [List.length_nil, Nat.add_zero] at hmany
    rw [hstate.received, List.take_of_length_le hmany]
  | cons limit limits ih =>
    obtain ⟨hpositive, hpage⟩ := hlimits limit (List.mem_cons_self ..)
    obtain ⟨after, hafter, hnext, hcommitted, hcursor⟩ :
        ∃ after, state.step encodeWorld decodeWorld (.read limit) = some after ∧
          after.Delivering ∧ after.committed = state.committed ∧
          after.cursor = min (state.cursor + limit) state.committed.length :=
      hstate.step_read hpositive hpage
    rw [List.length_cons] at hmany
    obtain ⟨final, hrun, hfinal⟩ := ih hnext
      (fun other hother ↦ hlimits other (List.mem_cons_of_mem _ hother))
      (by rw [hcommitted, hcursor]; omega)
    exact ⟨final, run_cons_eq_some.mpr ⟨after, hafter, hrun⟩, hfinal.trans hcommitted⟩

/-- What a consumer may rely on. -/
structure Delivered (encodeWorld : World → Json) (decodeWorld : Json → Except String World)
    (state : Consumption) : Prop where
  /-- Committed envelopes carry consecutive sequences from the first. -/
  consecutive : state.committed.map HistoryEnvelope.seq = List.range' 1 state.committed.length
  /-- What was received is what was committed up to the cursor, once each and in order. -/
  received : state.received = state.committed.take state.cursor ∧
    state.received.length = state.cursor
  /-- The next page is never refused and continues where the last one ended. -/
  page : ∀ limit, 1 ≤ limit → limit ≤ maxHistoryPage →
    state.history.readAfter state.cursor limit =
      .ok ((state.committed.drop state.cursor).take limit)
  /-- Enough pages of any admitted sizes end with everything committed received. -/
  drains : ∀ limits : List ℕ, (∀ limit ∈ limits, 1 ≤ limit ∧ limit ≤ maxHistoryPage) →
    state.committed.length ≤ state.cursor + limits.length →
    ∃ final, run (Consumption.step encodeWorld decodeWorld) state (limits.map .read) =
      some final ∧ final.received = state.committed
  /-- A save and load returns when the codec of the world does, and then changes nothing. -/
  reloaded : ∀ next, state.step encodeWorld decodeWorld .reload = some next ↔
    decodeWorld (encodeWorld state.history.world) = .ok state.history.world ∧ next = state

theorem Delivering.delivered
    (hcodec : ∀ world loaded, decodeWorld (encodeWorld world) = .ok loaded → loaded = world)
    (hstate : state.Delivering) : state.Delivered encodeWorld decodeWorld := by
  refine ⟨hstate.numbered, ⟨hstate.received, ?_⟩, fun limit ↦ hstate.readAfter,
    fun limits hlimits ↦ hstate.drains hlimits, fun next ↦ ⟨fun hstep ↦ ?_, ?_⟩⟩
  · rw [hstate.received, List.length_take]
    exact min_eq_left hstate.cursor
  · simp only [Consumption.step] at hstep
    split at hstep
    · rename_i history hload
      have hsame := hstate.reload hcodec hload
      rw [hsame] at hload
      rw [Option.some.injEq, hsame] at hstep
      exact ⟨(hstate.journaled.decode_encode encodeWorld decodeWorld).mp hload, hstep.symm⟩
    · simp at hstep
  · rintro ⟨hworld, rfl⟩
    simp only [Consumption.step,
      (hstate.journaled.decode_encode encodeWorld decodeWorld).mpr hworld]

end Codec

end Consumption

end Crpg.Sim
