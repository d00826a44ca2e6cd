import Crpg.Sim.Grounding
import Crpg.Sim.History
import Crpg.Sim.ScheduleInvariant

/-!
# The journal invariant

Every operation of a history goes through `commit`, and every acknowledgement drops a front part of
the journal. `Journaled` is what both keep: the retained sequences are the ones between the
acknowledged cursor and the next one, the cached byte total is the sum of the envelope lengths, both
bounds hold, ticks do not decrease and are not after the world, the inner queue is empty, and the
version is the newest wherever it has to be.

A journaled history is accepted by its own loader. The checks of the wrapper pass, each envelope
decodes to itself, and the wrapper decodes to an equal value exactly when the codec of the inner
world does.
-/

set_option autoImplicit false

namespace Crpg.Sim

open Crpg.Core Crpg.Lib Crpg.Rules Crpg.Data
open Result (bind_eq_ok_iff bind_ok_iff mapErr_eq_ok_iff pure_ok_iff)
open List (forall_mem_append forall_mem_cons forall_mem_map length_append length_cons length_drop
  map_append map_cons mem_append mem_cons_self mem_map not_mem_nil sum_cons)
open Option (map_eq_some_iff mem_toList)

/-! ### Readable events -/

/-- An event the loader accepts: its identities can be issued and its outcome is a known text. -/
def HistoryEvent.Readable : HistoryEvent → Prop
  | .spawned entity => EntityId.Issuable entity
  | .despawned entity => EntityId.Issuable entity
  | .died entity => EntityId.Issuable entity
  | .actionResolved actor target _ outcome _ =>
    EntityId.Issuable actor ∧ EntityId.Issuable target ∧ isValidOutcome outcome = true ∧
      outcome.utf8ByteSize ≤ maxHistoryStringBytes
  | .turnStarted actor _ => EntityId.Issuable actor
  | .encounterEnded _ _ => True
  | .roundStarted _ => True
  | .modeChanged _ _ => True
  | .orderEnded actor => EntityId.Issuable actor

theorem customText_valid (label : Fin 256) :
    isValidOutcome ("custom:" ++ toString label.val) = true ∧
      ("custom:" ++ toString label.val).utf8ByteSize ≤ maxHistoryStringBytes := by
  decide +kernel +revert

theorem outcomeText_valid (outcome : Outcome) : isValidOutcome (outcomeText outcome) = true ∧
      (outcomeText outcome).utf8ByteSize ≤ maxHistoryStringBytes := by
  cases outcome with
  | criticalSuccess => decide +kernel
  | success => decide +kernel
  | failure => decide +kernel
  | criticalFailure => decide +kernel
  | custom label => exact customText_valid ⟨label.toNat, label.toNat_lt⟩

theorem translateLegacy_readable {event : SimEvent} (hissuable : EntityId.Issuable event.entity) :
    (translateLegacy event).Readable := by
  cases event <;> exact hissuable

namespace Grounded

variable {world : World}

theorem resolvedEvent_readable (hgrounded : Grounded world) {outcome : ActionOutcome}
    (hknown : OutcomeKnown world outcome) : (resolvedEvent outcome).Readable :=
  ⟨hgrounded.issuable_combatant hknown.1, hgrounded.issuable_combatant hknown.2,
    outcomeText_valid outcome.outcome⟩

theorem turnEvents_readable (hgrounded : Grounded world) {facts : TransitionFacts}
    (hknown : TurnKnown world facts) : ∀ event ∈ turnEvents facts, event.Readable := by
  intro event hevent
  obtain ⟨turn, hturn, rfl⟩ := map_eq_some_iff.mp (mem_toList.mp hevent)
  exact hgrounded.issuable_combatant (hknown turn hturn)

end Grounded

theorem endEvents_readable (facts : TransitionFacts) : ∀ event ∈ endEvents facts, event.Readable := by
  intro event hevent
  obtain ⟨ended, -, rfl⟩ := map_eq_some_iff.mp (mem_toList.mp hevent)
  exact trivial

theorem pushLead_readable (facts : TransitionFacts) : ∀ event ∈ pushLead facts, event.Readable := by
  intro event hevent
  rcases mem_append.mp hevent with hmode | hround
  · obtain ⟨change, -, rfl⟩ := map_eq_some_iff.mp (mem_toList.mp hmode)
    exact trivial
  · obtain ⟨round, -, rfl⟩ := map_eq_some_iff.mp (mem_toList.mp hround)
    exact trivial

theorem Grounded.pushTransition_readable {world : World} (hgrounded : Grounded world)
    {facts : TransitionFacts} (hknown : TurnKnown world facts) :
    ∀ event ∈ pushTransition facts, event.Readable := by
  intro event hevent
  rcases mem_append.mp hevent with hlead | hrest
  · exact pushLead_readable facts event hlead
  · split_ifs at hrest
    · exact hgrounded.turnEvents_readable hknown event hrest
    · exact endEvents_readable facts event hrest

theorem executionEvents_readable {world : World} (hgrounded : Grounded world)
    {deaths : List SimEvent} {facts : List TickEvent} {events : List HistoryEvent}
    (hdeaths : ∀ death ∈ deaths, EntityId.Issuable death.entity)
    (hknown : ∀ fact ∈ facts, TickEventKnown world fact)
    (hevents : executionEvents deaths facts = .ok events) : ∀ event ∈ events, event.Readable := by
  induction facts generalizing deaths events with
  | nil =>
    cases hevents
    intro event hevent
    obtain ⟨death, hdeath, rfl⟩ := mem_map.mp hevent
    exact translateLegacy_readable (hdeaths death hdeath)
  | cons fact rest ih =>
    obtain ⟨hfact, hrest⟩ := forall_mem_cons.mp hknown
    cases fact with
    | orderEnded actor =>
      obtain ⟨others, hothers, hnext⟩ := bind_eq_ok_iff.mp hevents
      cases hnext
      exact forall_mem_cons.mpr
        ⟨hgrounded.issuable_combatant hfact, ih hdeaths hrest hothers⟩
    | resolved produced =>
      have hresolved : (resolvedEvent produced).Readable := hgrounded.resolvedEvent_readable hfact
      unfold executionEvents at hevents
      split_ifs at hevents
      · cases deaths with
        | nil => cases hevents
        | cons died others =>
          obtain ⟨hdied, hleft⟩ := forall_mem_cons.mp hdeaths
          obtain ⟨after, hafter, hnext⟩ := bind_eq_ok_iff.mp hevents
          cases hnext
          exact forall_mem_cons.mpr ⟨hresolved, forall_mem_cons.mpr
            ⟨translateLegacy_readable hdied, ih hleft hrest hafter⟩⟩
      · obtain ⟨after, hafter, hnext⟩ := bind_eq_ok_iff.mp hevents
        cases hnext
        exact forall_mem_cons.mpr ⟨hresolved, ih hdeaths hrest hafter⟩

/-! ### Commits -/

def envelopesFrom (tick : ℕ) : ℕ → List HistoryEvent → List HistoryEnvelope
  | _, [] => []
  | seq, event :: rest => ⟨tick, seq, event⟩ :: envelopesFrom tick (seq + 1) rest

theorem length_envelopesFrom (tick seq : ℕ) (events : List HistoryEvent) :
    (envelopesFrom tick seq events).length = events.length := by
  induction events generalizing seq with
  | nil => rfl
  | cons event rest ih => rw [envelopesFrom, length_cons, length_cons, ih]

theorem map_seq_envelopesFrom (tick seq : ℕ) (events : List HistoryEvent) :
    (envelopesFrom tick seq events).map HistoryEnvelope.seq = List.range' seq events.length := by
  induction events generalizing seq with
  | nil => rfl
  | cons event rest ih =>
    rw [envelopesFrom, map_cons, ih, length_cons, List.range'_succ]

theorem mem_envelopesFrom {tick seq : ℕ} {events : List HistoryEvent} {envelope : HistoryEnvelope}
    (hmem : envelope ∈ envelopesFrom tick seq events) :
    envelope.tick = tick ∧ envelope.payload ∈ events := by
  induction events generalizing seq with
  | nil => cases hmem
  | cons event rest ih =>
    rcases List.mem_cons.mp hmem with rfl | hrest
    · exact ⟨rfl, mem_cons_self ..⟩
    · exact ⟨(ih hrest).1, List.mem_cons_of_mem _ (ih hrest).2⟩

namespace HistoryWorld

/-- What a staging loop adds: consecutive envelopes and their bytes, within the budget. -/
theorem foldlM_stageEvent {tick : ℕ} {events : List HistoryEvent} {staged final : Staged}
    (hfold : Result.foldlM (stageEvent tick) staged events = .ok final) :
    final.envelopes = staged.envelopes ++ envelopesFrom tick staged.seq events ∧
      final.bytes = staged.bytes + ((envelopesFrom tick staged.seq events).map envelopeLen).sum ∧
      (staged.bytes ≤ maxHistoryBytes → final.bytes ≤ maxHistoryBytes) := by
  induction events generalizing staged with
  | nil =>
    cases hfold
    simp [envelopesFrom]
  | cons event rest ih =>
    obtain ⟨next, hnext, hrest⟩ := bind_eq_ok_iff.mp hfold
    simp only [stageEvent, bind_eq_ok_iff, Result.failIf_eq_ok_iff, Result.ok.injEq, not_lt]
      at hnext
    obtain ⟨_, hbudget, _, -, rfl⟩ := hnext
    obtain ⟨henvelopes, hbytes, hwithin⟩ := ih hrest
    refine ⟨?_, ?_, fun _ ↦ hwithin hbudget⟩
    · rw [henvelopes, envelopesFrom, List.append_assoc]
      rfl
    · rw [hbytes, envelopesFrom, map_cons, sum_cons, Nat.add_assoc]

end HistoryWorld

namespace Journal

theorem envelopes_drainPrefix (journal : Journal) (count : ℕ) :
    (journal.drainPrefix count).envelopes = journal.envelopes.drop count := by
  unfold drainPrefix
  split_ifs with hall
  · rw [hall, List.drop_length]
    rfl
  · rfl

/-- The bytes that stay are those of the envelopes that stay. Assumes: an exact total. -/
theorem bytes_drainPrefix {journal : Journal}
    (hbytes : journal.bytes = (journal.envelopes.map envelopeLen).sum) (count : ℕ) :
    (journal.drainPrefix count).bytes = ((journal.envelopes.drop count).map envelopeLen).sum := by
  unfold drainPrefix
  split_ifs with hall
  · rw [hall, List.drop_length]
    rfl
  · have hsplit := congrArg (fun envelopes ↦ (envelopes.map envelopeLen).sum)
      (List.take_append_drop count journal.envelopes)
    simp only [map_append, List.sum_append] at hsplit
    show journal.bytes - _ = _
    rw [hbytes, ← hsplit, Nat.add_sub_cancel_left]

theorem bytes_drainPrefix_le (journal : Journal) (count : ℕ) :
    (journal.drainPrefix count).bytes ≤ journal.bytes := by
  unfold drainPrefix
  split_ifs
  · exact Nat.zero_le _
  · exact Nat.sub_le _ _

end Journal

structure Journaled (history : HistoryWorld) : Prop where
  seqs : history.pending.envelopes.map HistoryEnvelope.seq =
    List.range' (history.acknowledged + 1) history.pending.envelopes.length
  next : history.acknowledged + history.pending.envelopes.length + 1 = history.nextSeq
  range : history.nextSeq ≤ u64Max
  bytes : history.pending.bytes = (history.pending.envelopes.map envelopeLen).sum
  count : history.pending.envelopes.length ≤ maxHistoryEvents
  budget : history.pending.bytes ≤ maxHistoryBytes
  ticks : history.pending.envelopes.Pairwise fun first second ↦ first.tick ≤ second.tick
  past : ∀ envelope ∈ history.pending.envelopes, envelope.tick ≤ history.world.tick
  queue : history.world.events.envelopes = []
  versions : history.version = historyVersionV1 ∨ history.version = historyVersion
  newest : (history.world.hasClock = true ∨
    ∃ envelope ∈ history.pending.envelopes, envelope.payload.isV2 = true) →
      history.version = historyVersion
  readable : ∀ envelope ∈ history.pending.envelopes, envelope.payload.Readable
  grounded : Grounded history.world
  clock : history.world.tick ≤ u64Max

namespace HistoryWorld

theorem upgraded_cases {version : ℕ} (world : World) (envelopes : List HistoryEnvelope)
    (hversion : version = historyVersionV1 ∨ version = historyVersion) :
    (upgraded version world envelopes = historyVersionV1 ∧ version = historyVersionV1 ∧
        world.hasClock = false ∧ ∀ envelope ∈ envelopes, envelope.payload.isV2 = false) ∨
      upgraded version world envelopes = historyVersion := by
  by_cases hupgrade : world.hasClock = true ∨
      (envelopes.any fun envelope ↦ envelope.payload.isV2) = true
  · right
    rcases hversion with rfl | rfl
    · exact if_pos ⟨by decide, hupgrade⟩
    · exact if_neg fun hless ↦ absurd hless.1 (by decide)
  · have hsame : upgraded version world envelopes = version :=
      if_neg fun hboth ↦ hupgrade hboth.2
    rw [hsame]
    rw [not_or, Bool.not_eq_true, Bool.not_eq_true, List.any_eq_false] at hupgrade
    refine hversion.imp (fun hfirst ↦ ⟨hfirst, hfirst, hupgrade.1, fun envelope henvelope ↦ ?_⟩) id
    exact Bool.not_eq_true _ ▸ hupgrade.2 envelope henvelope

end HistoryWorld

namespace Journaled

variable {history next : HistoryWorld}

theorem ofWorld {world : World} (hgrounded : Grounded world) (hqueue : world.events.envelopes = [])
    (htick : world.tick = 0) (hclock : world.hasClock = false) :
    Journaled ⟨historyVersionV1, world, 0, 1, Journal.new⟩ where
  seqs := rfl
  next := rfl
  range := show 1 ≤ u64Max by decide
  bytes := rfl
  count := Nat.zero_le _
  budget := Nat.zero_le _
  ticks := List.Pairwise.nil
  past := fun _ hnone ↦ absurd hnone not_mem_nil
  queue := hqueue
  versions := Or.inl rfl
  newest := by
    rintro (hclocked | ⟨_, hnone, -⟩)
    · exact absurd (hclocked.symm.trans hclock) (by decide)
    · exact absurd hnone not_mem_nil
  readable := fun _ hnone ↦ absurd hnone not_mem_nil
  grounded := hgrounded
  clock := htick.trans_le (Nat.zero_le _)

/-- A commit keeps the journal. Assumes: a staged world that is grounded, drained and not earlier,
and events the loader reads. -/
theorem commit (hjournaled : Journaled history) {staged : World} {events : List HistoryEvent}
    (hgrounded : Grounded staged) (hdrained : staged.events.envelopes = [])
    (hlater : history.world.tick ≤ staged.tick ∧ staged.tick ≤ u64Max)
    (hreadable : ∀ event ∈ events, event.Readable)
    (hcommit : history.commit staged events staged.tick = .ok next) :
    Journaled next ∧ next.world = staged := by
  simp only [HistoryWorld.commit, bind_ok_iff, pure_ok_iff, Result.failIf_eq_ok_iff, not_lt]
    at hcommit
  obtain ⟨_, -, _, hrange, _, hcount, final, hfold, rfl⟩ := hcommit
  obtain ⟨henvelopes, hbytes, hwithin⟩ := HistoryWorld.foldlM_stageEvent hfold
  rw [List.nil_append] at henvelopes
  have hnext := hjournaled.next
  have hlength := length_envelopesFrom staged.tick history.nextSeq events
  have hnew {envelope : HistoryEnvelope}
      (hmem : envelope ∈ history.pending.envelopes ++ final.envelopes) :
      envelope ∈ history.pending.envelopes ∨
        envelope.tick = staged.tick ∧ envelope.payload ∈ events := by
    refine (mem_append.mp hmem).imp_right fun hadded ↦ ?_
    exact mem_envelopesFrom (henvelopes ▸ hadded)
  refine ⟨⟨?_, ?_, hrange, ?_, ?_, hwithin hjournaled.budget, ?_, ?_, hdrained, ?_, ?_, ?_,
    hgrounded, hlater.2⟩, rfl⟩
  · simp only [Journal.append, henvelopes, map_append, hjournaled.seqs, length_append, hlength,
      map_seq_envelopesFrom]
    rw [← hnext, Nat.add_right_comm, List.range'_append_1]
  · simp only [Journal.append, henvelopes, length_append, hlength]
    omega
  · simp only [Journal.append, henvelopes, map_append, List.sum_append, hbytes, hjournaled.bytes]
  · simp only [Journal.append, henvelopes, length_append, hlength]
    exact hcount
  · have hstamp (envelope : HistoryEnvelope) (hadded : envelope ∈ final.envelopes) :
        envelope.tick = staged.tick :=
      (mem_envelopesFrom (henvelopes ▸ hadded)).1
    refine List.pairwise_append.mpr ⟨hjournaled.ticks, ?_, fun first hfirst second hsecond ↦ ?_⟩
    · refine List.pairwise_of_forall_mem_list fun first hfirst second hsecond ↦ ?_
      rw [hstamp first hfirst, hstamp second hsecond]
    · rw [hstamp second hsecond]
      exact (hjournaled.past first hfirst).trans hlater.1
  · intro envelope henvelope
    rcases hnew henvelope with hold | ⟨htick, -⟩
    · exact (hjournaled.past envelope hold).trans hlater.1
    · exact htick.le
  · refine (HistoryWorld.upgraded_cases staged final.envelopes hjournaled.versions).imp ?_ id
    exact fun hfirst ↦ hfirst.1
  · intro hneeds
    refine (HistoryWorld.upgraded_cases staged final.envelopes hjournaled.versions).resolve_left ?_
    rintro ⟨-, hfirst, hclock, hplain⟩
    rcases hneeds with hclocked | ⟨envelope, henvelope, hv2⟩
    · exact absurd (hclocked.symm.trans hclock) (by decide)
    · rcases mem_append.mp henvelope with hold | hadded
      · exact absurd (hfirst.symm.trans (hjournaled.newest (Or.inr ⟨envelope, hold, hv2⟩)))
          (by decide)
      · exact absurd (hv2.symm.trans (hplain envelope hadded)) (by decide)
  · intro envelope henvelope
    rcases hnew henvelope with hold | ⟨-, hevent⟩
    · exact hjournaled.readable envelope hold
    · exact hreadable envelope.payload hevent

theorem sameTick (hjournaled : Journaled history) {staged : World}
    (hsame : staged.tick = history.world.tick) :
    history.world.tick ≤ staged.tick ∧ staged.tick ≤ u64Max :=
  ⟨hsame.ge, hsame.trans_le hjournaled.clock⟩

/-- A drained commit keeps the journal. Assumes: a staged world that is grounded and not earlier,
and a collection that turns issued identities into events the loader reads. -/
theorem commitDrained (hjournaled : Journaled history) {staged : World}
    {collect : List SimEvent → Result HistoryError (List HistoryEvent)}
    (hgrounded : Grounded staged) (hlater : history.world.tick ≤ staged.tick ∧ staged.tick ≤ u64Max)
    (hcollect : ∀ drained events, (∀ event ∈ drained, EntityId.Issuable event.entity) →
      collect drained = .ok events → ∀ event ∈ events, event.Readable)
    (hcommit : history.commitDrained staged collect = .ok next) :
    Journaled next ∧ next.world = staged.drainEvents.2 := by
  obtain ⟨events, hevents, hcommit⟩ := bind_eq_ok_iff.mp hcommit
  have hissued : ∀ event ∈ staged.drainEvents.1, EntityId.Issuable event.entity := by
    intro event hevent
    obtain ⟨envelope, henvelope, rfl⟩ := mem_map.mp hevent
    exact hgrounded.events envelope ((List.mem_insertionSort _).mp henvelope)
  have hquiet : Grounded staged.drainEvents.2 :=
    hgrounded.congr rfl rfl rfl rfl fun _ hnone ↦ absurd hnone not_mem_nil
  exact hjournaled.commit hquiet rfl hlater (hcollect _ events hissued hevents) hcommit

theorem translated_readable (drained : List SimEvent) (events : List HistoryEvent)
    (hissued : ∀ event ∈ drained, EntityId.Issuable event.entity)
    (htranslated : HistoryWorld.translated drained = .ok events) :
    ∀ event ∈ events, event.Readable := by
  cases htranslated
  exact forall_mem_map.mpr fun event hevent ↦ translateLegacy_readable (hissued event hevent)

/-! ### Operations -/

section

variable (hjournaled : Journaled history)
include hjournaled

theorem spawnWithCreature {data : EntityMeta} {creature : Option CreatureState} {id : EntityId}
    (hspawn : history.spawnWithCreature data creature = .ok (id, next)) :
    Journaled next ∧ next.world.entities.contains id = true := by
  simp only [HistoryWorld.spawnWithCreature, bind_ok_iff, pure_ok_iff, Result.expect_eq_ok_iff,
    Prod.mk.injEq] at hspawn
  obtain ⟨⟨minted, spawned⟩, hmint, after, hcommit, rfl, rfl⟩ := hspawn
  obtain ⟨hgrounded, hlive⟩ := hjournaled.grounded.spawn hmint
  obtain ⟨_, _, hspawned⟩ := spawn_frame hmint
  have hstaged : Grounded { spawned with
      creatures := insertSome spawned.creatures minted creature } := by
    cases creature with
    | none => exact hgrounded
    | some record => exact hgrounded.insertCreature hlive
  obtain ⟨hafter, hworld⟩ := hjournaled.commitDrained hstaged
    (hjournaled.sameTick (show spawned.tick = history.world.tick by rw [hspawned]))
    translated_readable hcommit
  refine ⟨hafter, ?_⟩
  rw [hworld]
  exact hlive

theorem registerCreature {spec : CreatureSpec} {id : EntityId}
    (hregister : history.registerCreature spec = .ok (id, next)) : Journaled next := by
  simp only [HistoryWorld.registerCreature, bind_ok_iff, pure_ok_iff, mapErr_eq_ok_iff,
    Prod.mk.injEq] at hregister
  obtain ⟨⟨minted, registered⟩, hmint, after, hcommit, rfl, rfl⟩ := hregister
  obtain ⟨spawned, record, hspawned, hregistered⟩ := registerCreature_frame hmint
  obtain ⟨_, _, hframe⟩ := spawn_frame hspawned
  refine (hjournaled.commitDrained (hjournaled.grounded.registerCreature hmint)
    (hjournaled.sameTick ?_) translated_readable hcommit).1
  rw [hregistered, hframe]

theorem despawn {id : EntityId} {removed : Bool}
    (hdespawn : history.despawn id = .ok (removed, next)) : Journaled next := by
  simp only [HistoryWorld.despawn, bind_ok_iff, pure_ok_iff, mapErr_eq_ok_iff, Prod.mk.injEq]
    at hdespawn
  obtain ⟨⟨⟨flag, facts⟩, staged⟩, htracked, after, hcommit, rfl, rfl⟩ := hdespawn
  have hstaged : staged.tick = history.world.tick ∧
      ∀ event ∈ pushTransition facts, event.Readable := by
    obtain ⟨rfl, hfacts⟩ | ⟨-, settled, hcontrolled, rfl, hknown⟩ := despawnTracked_cases htracked
    · cases hfacts
      exact ⟨rfl, hjournaled.grounded.pushTransition_readable (turnKnown_none _)⟩
    · exact ⟨hcontrolled.tick, (hjournaled.grounded.strip id).pushTransition_readable hknown⟩
  refine (hjournaled.commitDrained (hjournaled.grounded.despawnTracked htracked)
    (hjournaled.sameTick hstaged.1) ?_ hcommit).1
  intro drained events hissued hevents
  cases hevents
  refine forall_mem_append.mpr ⟨?_, hstaged.2⟩
  exact forall_mem_map.mpr fun event hevent ↦ translateLegacy_readable (hissued event hevent)

theorem tick (htick : history.tick = .ok next) : Journaled next := by
  simp only [HistoryWorld.tick, bind_ok_iff, mapErr_eq_ok_iff] at htick
  obtain ⟨⟨facts, staged⟩, htracked, hcommit⟩ := htick
  obtain ⟨hcontrolled, hturn, hknown⟩ := tickTracked_controlled htracked
  have hgrounded := hjournaled.grounded
  refine (hjournaled.commitDrained (hgrounded.advanceTick.controlled hcontrolled) ?_ ?_ hcommit).1
  · rw [hcontrolled.tick]
    exact ⟨le_min hjournaled.clock (Nat.le_succ _), saturatingAdd_le ..⟩
  · intro drained events hissued hevents
    obtain ⟨executed, hexecuted, hcollected⟩ := bind_eq_ok_iff.mp hevents
    cases hcollected
    refine forall_mem_append.mpr ⟨forall_mem_append.mpr
      ⟨forall_mem_append.mpr ⟨pushLead_readable _, hgrounded.turnEvents_readable hturn⟩, ?_⟩,
      endEvents_readable _⟩
    exact executionEvents_readable hgrounded hissued hknown hexecuted

theorem startEncounterInMode {spec : EncounterSpec} {mode : EncounterMode}
    (hstart : history.startEncounterInMode spec mode = .ok next) : Journaled next := by
  simp only [HistoryWorld.startEncounterInMode, bind_ok_iff, mapErr_eq_ok_iff] at hstart
  obtain ⟨⟨facts, staged⟩, hstarted, hcommit⟩ := hstart
  obtain ⟨hgrounded, hsame, hturn⟩ := hjournaled.grounded.startEncounterInModeTracked hstarted
  refine (hjournaled.commitDrained hgrounded (hjournaled.sameTick hsame) ?_ hcommit).1
  intro drained events hissued hevents
  cases hevents
  refine forall_mem_append.mpr ⟨?_, fun event hevent ↦ ?_⟩
  · exact forall_mem_map.mpr fun event hevent ↦
      translateLegacy_readable (hissued event hevent)
  · obtain ⟨turn, hinitial, rfl⟩ := map_eq_some_iff.mp (mem_toList.mp hevent)
    exact hgrounded.issuable_combatant (hturn turn hinitial)

theorem performAction {action : CombatAction} {outcome : Option ActionOutcome}
    (hperform : history.performAction action = .ok (outcome, next)) : Journaled next := by
  simp only [HistoryWorld.performAction, bind_ok_iff, pure_ok_iff, mapErr_eq_ok_iff, Prod.mk.injEq]
    at hperform
  obtain ⟨⟨⟨produced, facts⟩, staged⟩, hperformed, after, hcommit, rfl, rfl⟩ := hperform
  obtain ⟨hcontrolled, hproduced, hturn⟩ := performActionTracked_controlled hperformed
  have hgrounded := hjournaled.grounded
  refine (hjournaled.commitDrained (hgrounded.controlled hcontrolled)
    (hjournaled.sameTick hcontrolled.tick) ?_ hcommit).1
  intro drained events hissued hevents
  cases hevents
  refine forall_mem_append.mpr ⟨forall_mem_append.mpr ⟨fun event hevent ↦ ?_, ?_⟩,
    hgrounded.pushTransition_readable hturn⟩
  · obtain ⟨result, hresult, rfl⟩ := map_eq_some_iff.mp (mem_toList.mp hevent)
    exact hgrounded.resolvedEvent_readable (hproduced result hresult)
  · exact forall_mem_map.mpr fun event hevent ↦
      translateLegacy_readable (hissued event hevent)

theorem endEncounter {summary : EncounterSummary}
    (hend : history.endEncounter = .ok (summary, next)) : Journaled next := by
  simp only [HistoryWorld.endEncounter, bind_ok_iff, pure_ok_iff, mapErr_eq_ok_iff, Prod.mk.injEq]
    at hend
  obtain ⟨⟨_, released⟩, hreleased, after, hcommit, rfl, rfl⟩ := hend
  obtain ⟨hgrounded, hsame⟩ := hjournaled.grounded.endEncounter hreleased
  exact (hjournaled.commitDrained hgrounded (hjournaled.sameTick hsame) translated_readable
    hcommit).1

theorem requestMode {mode : EncounterMode} (hrequest : history.requestMode mode = .ok next) :
    Journaled next := by
  simp only [HistoryWorld.requestMode, bind_ok_iff, mapErr_eq_ok_iff] at hrequest
  obtain ⟨staged, hrequested, hcommit⟩ := hrequest
  have hcontrolled := requestMode_controlled hrequested
  refine (hjournaled.commitDrained (hjournaled.grounded.controlled hcontrolled)
    (hjournaled.sameTick hcontrolled.tick) ?_ hcommit).1
  intro drained events _ hevents
  cases hevents
  exact fun _ hnone ↦ absurd hnone not_mem_nil

/-- An acknowledgement drops a front part of the journal with its bytes. -/
theorem acknowledge {through : ℕ} (hacknowledge : history.acknowledge through = .ok next) :
    Journaled next := by
  unfold HistoryWorld.acknowledge at hacknowledge
  split_ifs at hacknowledge with hfuture hstale
  · cases hacknowledge
    exact hjournaled
  · cases hacknowledge
    have hnext := hjournaled.next
    rw [HistoryWorld.lastSequence] at hfuture
    obtain ⟨count, rfl⟩ : ∃ count, through = history.acknowledged + count :=
      ⟨through - history.acknowledged, by omega⟩
    rw [Nat.add_sub_cancel_left]
    have hdropped := history.pending.envelopes_drainPrefix count
    have htotal := Journal.bytes_drainPrefix hjournaled.bytes count
    have hkept {envelope : HistoryEnvelope}
        (hmem : envelope ∈ (history.pending.drainPrefix count).envelopes) :
        envelope ∈ history.pending.envelopes :=
      List.mem_of_mem_drop (hdropped ▸ hmem)
    refine ⟨?_, ?_, hjournaled.range, by rw [htotal, hdropped], ?_, ?_, ?_,
      fun envelope hmem ↦ hjournaled.past envelope (hkept hmem), hjournaled.queue,
      hjournaled.versions, ?_, fun envelope hmem ↦ hjournaled.readable envelope (hkept hmem),
      hjournaled.grounded, hjournaled.clock⟩
    · rw [hdropped, List.map_drop, hjournaled.seqs, List.drop_range', length_drop]
      show List.range' (history.acknowledged + 1 + count * 1) _ =
        List.range' (history.acknowledged + count + 1) _
      rw [Nat.mul_one, Nat.add_right_comm]
    · show history.acknowledged + count + _ + 1 = history.nextSeq
      rw [hdropped, length_drop]
      omega
    · show (history.pending.drainPrefix count).envelopes.length ≤ _
      rw [hdropped, length_drop]
      exact (Nat.sub_le _ _).trans hjournaled.count
    · exact (Journal.bytes_drainPrefix_le _ count).trans hjournaled.budget
    · rw [hdropped]
      exact hjournaled.ticks.sublist (List.drop_sublist count _)
    · refine fun hneeds ↦ hjournaled.newest (hneeds.imp_right ?_)
      exact fun ⟨envelope, hmem, hv2⟩ ↦ ⟨envelope, hkept hmem, hv2⟩

theorem attachTransform {id : EntityId} (hlive : history.world.entities.contains id = true)
    (transform : Option Transform) : Journaled (history.attachTransform id transform) := by
  have hgrounded : Grounded { history.world with
      transforms := insertSome history.world.transforms id transform } := by
    cases transform with
    | none => exact hjournaled.grounded
    | some value => exact hjournaled.grounded.insertTransform hlive
  exact { hjournaled with grounded := hgrounded }

end

theorem transferHistoryEntity {source destination left entered : HistoryWorld}
    {entity moved : EntityId} (hsource : Journaled source) (hdestination : Journaled destination)
    (htransfer : transferHistoryEntity source destination entity = .ok (moved, left, entered)) :
    Journaled left ∧ Journaled entered := by
  simp only [Crpg.Sim.transferHistoryEntity, bind_ok_iff, pure_ok_iff, mapErr_eq_ok_iff,
    Prod.mk.injEq] at htransfer
  obtain ⟨_, -, data, -, ⟨flag, after⟩, hremoved, ⟨id, spawned⟩, hspawned, rfl, rfl, rfl⟩ :=
    htransfer
  obtain ⟨hjoined, hlive⟩ := hdestination.spawnWithCreature hspawned
  exact ⟨hsource.despawn hremoved, hjoined.attachTransform hlive _⟩

end Journaled

theorem journaled_of_reachable {history : HistoryWorld} (hreach : HistoryReachable history) :
    Journaled history := by
  induction hreach with
  | new seed => exact Journaled.ofWorld (Grounded.new seed) rfl rfl rfl
  | newInArea seed area =>
    have hgrounded : Grounded (World.newInArea seed area) :=
      (Grounded.new seed).congr rfl rfl rfl rfl fun _ ↦ id
    exact Journaled.ofWorld hgrounded rfl rfl rfl
  | spawn _ hreturned ih => exact (ih.spawnWithCreature hreturned).1
  | register _ hreturned ih => exact ih.registerCreature hreturned
  | despawn _ hreturned ih => exact ih.despawn hreturned
  | tick _ hreturned ih => exact ih.tick hreturned
  | start _ hreturned ih => exact ih.startEncounterInMode hreturned
  | perform _ hreturned ih => exact ih.performAction hreturned
  | endEncounter _ hreturned ih => exact ih.endEncounter hreturned
  | requestMode _ hreturned ih => exact ih.requestMode hreturned
  | acknowledge _ hreturned ih => exact ih.acknowledge hreturned
  | transferOut _ _ hreturned ihsource ihdestination =>
    exact (ihsource.transferHistoryEntity ihdestination hreturned).1
  | transferIn _ _ hreturned ihsource ihdestination =>
    exact (ihsource.transferHistoryEntity ihdestination hreturned).2

/-! ### Loading -/

theorem decodeEntity_encodeEntity {id : EntityId} (hissuable : EntityId.Issuable id) :
    decodeEntity (encodeEntity id) = .ok id := by
  have hvisit : visitFields (fun key ↦
        if key = "index" ∨ key = "generation" then some Json.asNumber else none)
      (fun key ↦ "duplicate field `" ++ key ++ "`") "unknown field"
      [("index", .number id.index), ("generation", .number id.generation)] [] =
      .ok [("index", id.index), ("generation", id.generation)] :=
    rfl
  simp only [decodeEntity, encodeEntity, Json.asMap, Except.bind, bind, hvisit]
  simp [missing, fieldOf, hissuable.1, hissuable.2]

theorem decodeUlid_encodeUlid (id : Ulid) : decodeUlid (encodeUlid id) = .ok id := by
  simp only [decodeUlid, encodeUlid, Json.asText, Except.bind, bind, parse_ulidText]

theorem decodeMode_encodeMode (mode : EncounterMode) : decodeMode (encodeMode mode) = .ok mode := by
  cases mode <;> rfl

theorem decodeOutcome_text {outcome : String}
    (hbounded : outcome.utf8ByteSize ≤ maxHistoryStringBytes) :
    decodeOutcome (.text outcome) = .ok outcome := by
  simp only [decodeOutcome, Json.asText, Except.bind, bind, hbounded.not_gt, if_false]

theorem visitPayload_eq_ok {keys : List String} {fields : List (String × Json)}
    {values : List (String × PayloadField)}
    (hdecoded : List.Forall₂ (fun field value ↦ field.1 = value.1 ∧ field.1 ∈ keys ∧
      PayloadField.decoder field.1 field.2 = .ok value.2) fields values)
    (hdistinct : (values.map Prod.fst).Nodup) : visitPayload keys (.map fields) = .ok values := by
  refine visitFields_eq_ok (hdecoded.imp fun field value hfield ↦ ?_) hdistinct
  exact ⟨hfield.1, _, if_pos hfield.2.1, hfield.2.2⟩

theorem decode_tagged {tag : String} {fields : List (String × Json)} {event : HistoryEvent}
    (hpayload : decodePayload tag (.map fields) = .ok event) :
    HistoryEvent.decode (tagged tag fields) = .ok event := by
  simp only [HistoryEvent.decode, tagged, Json.asMap, Json.asText, Except.bind, bind, hpayload,
    List.isEmpty_nil, if_true]

theorem visitPayload_entity {id : EntityId} (hissuable : EntityId.Issuable id) :
    visitPayload ["entity"] (.map [("entity", encodeEntity id)]) =
      .ok [("entity", .entity id)] := by
  have hfield := congrArg (Except.map PayloadField.entity) (decodeEntity_encodeEntity hissuable)
  exact visitPayload_eq_ok (.cons ⟨rfl, List.mem_singleton_self _, hfield⟩ .nil)
    (List.nodup_singleton _)

theorem HistoryEvent.decode_encode {event : HistoryEvent} (hreadable : event.Readable) :
    HistoryEvent.decode event.encode = .ok event := by
  have hentity {id : EntityId} (hissuable : EntityId.Issuable id) :=
    congrArg (Except.map PayloadField.entity) (decodeEntity_encodeEntity hissuable)
  cases event with
  | spawned entity =>
    refine decode_tagged ?_
    simp only [decodePayload, visitPayload_entity hreadable]
    rfl
  | despawned entity =>
    refine decode_tagged ?_
    simp only [decodePayload, visitPayload_entity hreadable]
    rfl
  | died entity =>
    refine decode_tagged ?_
    simp only [decodePayload, visitPayload_entity hreadable]
    rfl
  | actionResolved actor target ability outcome damage =>
    obtain ⟨hactor, htarget, hvalid, hbounded⟩ := hreadable
    have hability := congrArg (Except.map PayloadField.ulid) (decodeUlid_encodeUlid ability)
    have houtcome := congrArg (Except.map PayloadField.text) (decodeOutcome_text hbounded)
    have hvisit : visitPayload ["actor", "target", "ability", "outcome", "damage"]
        (.map [("actor", encodeEntity actor), ("target", encodeEntity target),
          ("ability", encodeUlid ability), ("outcome", .text outcome),
          ("damage", .number damage)]) =
        .ok [("actor", .entity actor), ("target", .entity target), ("ability", .ulid ability),
          ("outcome", .text outcome), ("damage", .number damage)] := by
      refine visitPayload_eq_ok ?_ (by simp)
      exact .cons ⟨rfl, by simp, hentity hactor⟩ <| .cons ⟨rfl, by simp, hentity htarget⟩ <|
        .cons ⟨rfl, by simp, hability⟩ <| .cons ⟨rfl, by simp, houtcome⟩ <|
        .cons ⟨rfl, by simp, rfl⟩ .nil
    refine decode_tagged ?_
    simp only [decodePayload, hvisit]
    show (if isValidOutcome outcome then _ else _) = _
    rw [if_pos hvalid]
    rfl
  | turnStarted actor round =>
    have hvisit : visitPayload ["actor", "round"]
        (.map [("actor", encodeEntity actor), ("round", .number round)]) =
        .ok [("actor", .entity actor), ("round", .number round)] := by
      refine visitPayload_eq_ok ?_ (by simp)
      exact .cons ⟨rfl, by simp, hentity hreadable⟩ <| .cons ⟨rfl, by simp, rfl⟩ .nil
    refine decode_tagged ?_
    simp only [decodePayload, hvisit]
    rfl
  | encounterEnded encounter round =>
    have hencounter := congrArg (Except.map PayloadField.ulid) (decodeUlid_encodeUlid encounter)
    have hvisit : visitPayload ["encounter", "round"]
        (.map [("encounter", encodeUlid encounter), ("round", .number round)]) =
        .ok [("encounter", .ulid encounter), ("round", .number round)] := by
      refine visitPayload_eq_ok ?_ (by simp)
      exact .cons ⟨rfl, by simp, hencounter⟩ <| .cons ⟨rfl, by simp, rfl⟩ .nil
    refine decode_tagged ?_
    simp only [decodePayload, hvisit]
    rfl
  | roundStarted round => exact decode_tagged rfl
  | modeChanged mode round =>
    have hmode := congrArg (Except.map PayloadField.mode) (decodeMode_encodeMode mode)
    have hvisit : visitPayload ["mode", "round"]
        (.map [("mode", encodeMode mode), ("round", .number round)]) =
        .ok [("mode", .mode mode), ("round", .number round)] := by
      refine visitPayload_eq_ok ?_ (by simp)
      exact .cons ⟨rfl, by simp, hmode⟩ <| .cons ⟨rfl, by simp, rfl⟩ .nil
    refine decode_tagged ?_
    simp only [decodePayload, hvisit]
    rfl
  | orderEnded actor =>
    have hvisit : visitPayload ["actor"] (.map [("actor", encodeEntity actor)]) =
        .ok [("actor", .entity actor)] :=
      visitPayload_eq_ok (.cons ⟨rfl, by simp, hentity hreadable⟩ .nil) (by simp)
    refine decode_tagged ?_
    simp only [decodePayload, hvisit]
    rfl

theorem HistoryEnvelope.decode_encode {envelope : HistoryEnvelope}
    (hreadable : envelope.payload.Readable) :
    HistoryEnvelope.decode envelope.encode = .ok envelope := by
  have hpayload := congrArg (Except.map EnvelopeField.payload)
    (HistoryEvent.decode_encode hreadable)
  have hvisit : visitFields EnvelopeField.decoder
      (fun key ↦ "duplicate history envelope field `" ++ key ++ "`")
      "unknown history envelope field"
      [("tick", .number envelope.tick), ("seq", .number envelope.seq),
        ("payload", envelope.payload.encode)] [] =
      .ok [("tick", .number envelope.tick), ("seq", .number envelope.seq),
        ("payload", .payload envelope.payload)] := by
    refine visitFields_eq_ok ?_ (by simp)
    exact .cons ⟨rfl, _, rfl, rfl⟩ <| .cons ⟨rfl, _, rfl, rfl⟩ <|
      .cons ⟨rfl, _, rfl, hpayload⟩ .nil
  simp only [HistoryEnvelope.decode, HistoryEnvelope.encode, Json.asMap, Except.bind, bind, hvisit]
  rfl

theorem decodePending_encode {envelopes out : List HistoryEnvelope} {bytes : ℕ}
    (hreadable : ∀ envelope ∈ envelopes, envelope.payload.Readable)
    (hcount : out.length + envelopes.length ≤ maxHistoryEvents)
    (hbudget : bytes + (envelopes.map envelopeLen).sum ≤ maxHistoryBytes) :
    decodePending (envelopes.map HistoryEnvelope.encode) out bytes =
      .ok ⟨out ++ envelopes, bytes + (envelopes.map envelopeLen).sum⟩ := by
  induction envelopes generalizing out bytes with
  | nil => simp [decodePending]
  | cons envelope rest ih =>
    obtain ⟨hfirst, hrest⟩ := forall_mem_cons.mp hreadable
    rw [length_cons] at hcount
    rw [map_cons, sum_cons, ← Nat.add_assoc] at hbudget
    have hdecoded := @ih (out ++ [envelope]) (bytes + envelopeLen envelope) hrest
      (by rw [length_append, List.length_singleton]; omega) hbudget
    rw [map_cons, decodePending, HistoryEnvelope.decode_encode hfirst,
      if_neg (by omega)]
    dsimp only
    rw [if_neg (by omega), hdecoded, List.append_assoc, List.singleton_append, map_cons,
      sum_cons, Nat.add_assoc]

/-- The loop of `validate_journal` accepts contiguous sequences below the limit with ticks that do
not decrease and are not after the world. -/
theorem validateEntries_eq_ok {worldTick expected : ℕ} {previous : Option ℕ}
    {envelopes : List HistoryEnvelope} (hpositive : 0 < expected)
    (hseqs : envelopes.map HistoryEnvelope.seq = List.range' expected envelopes.length)
    (hrange : expected + envelopes.length ≤ u64Max)
    (hticks : envelopes.Pairwise fun first second ↦ first.tick ≤ second.tick)
    (hprevious : ∀ before ∈ previous, ∀ envelope ∈ envelopes, before ≤ envelope.tick)
    (hpast : ∀ envelope ∈ envelopes, envelope.tick ≤ worldTick) :
    validateEntries worldTick envelopes expected previous = .ok (expected + envelopes.length) := by
  induction envelopes generalizing expected previous with
  | nil => rfl
  | cons envelope rest ih =>
    rw [map_cons, length_cons, List.range'_succ, List.cons.injEq] at hseqs
    rw [length_cons] at hrange
    rw [List.pairwise_cons] at hticks
    obtain ⟨hseq, hseqs⟩ := hseqs
    have hordered : (previous.any fun before ↦ envelope.tick < before) = false := by
      cases previous with
      | none => rfl
      | some before =>
        exact decide_eq_false (hprevious before rfl envelope (mem_cons_self ..)).not_gt
    have hrest := @ih (expected + 1) (some envelope.tick) (Nat.succ_pos _) hseqs (by omega)
      hticks.2 (by
        rintro before hbefore other hother
        rw [← Option.mem_some.mp hbefore]
        exact hticks.1 other hother)
      fun other hother ↦ hpast other (List.mem_cons_of_mem _ hother)
    rw [validateEntries, if_neg (not_not.mpr hseq), if_neg (by omega), hordered,
      if_neg Bool.false_ne_true, if_neg (hpast envelope (mem_cons_self ..)).not_gt,
      if_neg (by omega), hrest, length_cons, Nat.add_assoc, Nat.add_comm 1]

namespace Journaled

variable {history : HistoryWorld}

section

variable (hjournaled : Journaled history)
include hjournaled

theorem validateJournal :
    validateJournal history.pending.envelopes history.acknowledged history.nextSeq
      history.world.tick = .ok () := by
  have hnext := hjournaled.next
  have hrange := hjournaled.range
  have hvalid := @validateEntries_eq_ok history.world.tick (history.acknowledged + 1) none
    history.pending.envelopes (Nat.succ_pos _) hjournaled.seqs (by omega) hjournaled.ticks nofun
    hjournaled.past
  unfold Crpg.Sim.validateJournal
  split_ifs with hempty hbad hoverflow
  · rw [List.isEmpty_iff] at hempty
    rw [hempty, List.length_nil] at hnext
    omega
  · rfl
  · omega
  · rw [hvalid]
    exact if_neg (by omega)

theorem checkWrapper : history.checkWrapper = .ok () := by
  have hnext := hjournaled.next
  have hnewest {needs : Prop} (hneeds : needs → history.version = historyVersion) :
      ¬(history.version = historyVersionV1 ∧ needs) :=
    fun hboth ↦ absurd (hboth.1.symm.trans (hneeds hboth.2)) (by decide)
  unfold HistoryWorld.checkWrapper
  rw [if_neg, if_neg, if_neg, if_neg, if_neg, if_neg]
  · exact hjournaled.validateJournal
  · rw [EventQueue.isEmpty, hjournaled.queue]
    decide
  · omega
  · omega
  · exact hnewest fun hclock ↦ hjournaled.newest (Or.inl hclock)
  · refine hnewest fun hv2 ↦ hjournaled.newest (Or.inr ?_)
    simpa using hv2
  · exact not_and_or.mpr (hjournaled.versions.imp not_not.mpr not_not.mpr)

theorem decodePending :
    Crpg.Sim.decodePending (history.pending.envelopes.map HistoryEnvelope.encode) [] 0 =
      .ok history.pending := by
  have hbudget := hjournaled.bytes ▸ hjournaled.budget
  rw [decodePending_encode hjournaled.readable (by simpa using hjournaled.count)
    (by simpa using hbudget), List.nil_append, Nat.zero_add, ← hjournaled.bytes]

/-- The decoder of a journaled history reads its world, and checks the history around it. -/
theorem decode_eq (encodeWorld : World → Json) (decodeWorld : Json → Except String World) :
    HistoryWorld.decode decodeWorld (history.encode encodeWorld) =
      (decodeWorld (encodeWorld history.world)).bind fun world ↦
        ({ history with world := world } : HistoryWorld).checkWrapper.bind fun _ ↦
          .ok { history with world := world } := by
  have hjournal : (do return WrapperField.journal (← Crpg.Sim.decodePending
        (← (Json.list (history.pending.envelopes.map HistoryEnvelope.encode)).asList) [] 0) :
      Except String WrapperField) = .ok (.journal history.pending) := by
    simp only [Json.asList, Except.bind, bind, hjournaled.decodePending]
    rfl
  simp only [HistoryWorld.decode, HistoryWorld.encode, Json.asMap, Except.bind, bind]
  cases hworld : decodeWorld (encodeWorld history.world) with
  | error error =>
    simp [visitFields, WrapperField.decoder, Json.asNumber, Except.map, hworld]
  | ok world =>
    have hfield := congrArg (Except.map WrapperField.world) hworld
    have hvisit : visitFields (WrapperField.decoder decodeWorld)
        (fun key ↦ "duplicate history wrapper field `" ++ key ++ "`")
        "unknown history wrapper field"
        [("version", .number history.version), ("world", encodeWorld history.world),
          ("acknowledged", .number history.acknowledged), ("next_seq", .number history.nextSeq),
          ("pending", .list (history.pending.envelopes.map HistoryEnvelope.encode))] [] =
        .ok [("version", .number history.version), ("world", .world world),
          ("acknowledged", .number history.acknowledged), ("next_seq", .number history.nextSeq),
          ("pending", .journal history.pending)] := by
      refine visitFields_eq_ok ?_ (by simp)
      exact .cons ⟨rfl, _, rfl, rfl⟩ <| .cons ⟨rfl, _, rfl, hfield⟩ <|
        .cons ⟨rfl, _, rfl, rfl⟩ <| .cons ⟨rfl, _, rfl, rfl⟩ <|
        .cons ⟨rfl, _, rfl, hjournal⟩ .nil
    simp only [hvisit]
    rfl

theorem decode_encode (encodeWorld : World → Json) (decodeWorld : Json → Except String World) :
    HistoryWorld.decode decodeWorld (history.encode encodeWorld) = .ok history ↔
      decodeWorld (encodeWorld history.world) = .ok history.world := by
  rw [hjournaled.decode_eq]
  cases decodeWorld (encodeWorld history.world) with
  | error error => exact ⟨nofun, nofun⟩
  | ok world =>
    simp only [Except.bind, Except.ok.injEq]
    constructor
    · intro hdecoded
      split at hdecoded
      · cases hdecoded
      · exact congrArg HistoryWorld.world (Except.ok.inj hdecoded)
    · rintro rfl
      rw [hjournaled.checkWrapper]

end

end Journaled

/-- In every reachable history the retained sequences are the ones between the acknowledged cursor
and the next one, the cached total is the sum of the envelope lengths, both bounds hold, ticks do
not decrease and are not after the world, the inner queue is empty, and the version is the newest
wherever a clock or a version 2 event asks for it. The checks of the loader accept it, the journal
decodes to itself, and the wrapper does so exactly when the codec of the world does. -/
theorem reachable_journal {history : HistoryWorld} (hreach : HistoryReachable history) :
    (history.pending.envelopes.map HistoryEnvelope.seq =
        List.range' (history.acknowledged + 1) (history.nextSeq - (history.acknowledged + 1)) ∧
      history.acknowledged < history.nextSeq) ∧
    history.pending.bytes = (history.pending.envelopes.map envelopeLen).sum ∧
    history.pending.envelopes.length ≤ maxHistoryEvents ∧ history.pending.bytes ≤ maxHistoryBytes ∧
    (history.pending.envelopes.Pairwise fun first second ↦ first.tick ≤ second.tick) ∧
    (∀ envelope ∈ history.pending.envelopes, envelope.tick ≤ history.world.tick) ∧
    history.world.events.isEmpty = true ∧ ((history.world.hasClock = true ∨
        ∃ envelope ∈ history.pending.envelopes, envelope.payload.isV2 = true) →
      history.version = historyVersion) ∧ history.checkWrapper = .ok () ∧
    decodePending (history.pending.envelopes.map HistoryEnvelope.encode) [] 0 =
      .ok history.pending ∧
    ∀ (encodeWorld : World → Json) (decodeWorld : Json → Except String World),
      HistoryWorld.decode decodeWorld (history.encode encodeWorld) = .ok history ↔
        decodeWorld (encodeWorld history.world) = .ok history.world := by
  have hjournaled := journaled_of_reachable hreach
  have hnext := hjournaled.next
  have hlength : history.pending.envelopes.length =
      history.nextSeq - (history.acknowledged + 1) := by
    omega
  refine ⟨⟨hlength ▸ hjournaled.seqs, by omega⟩, hjournaled.bytes, hjournaled.count,
    hjournaled.budget, hjournaled.ticks, hjournaled.past, ?_, hjournaled.newest,
    hjournaled.checkWrapper, hjournaled.decodePending, hjournaled.decode_encode⟩
  rw [EventQueue.isEmpty, hjournaled.queue]
  rfl

/-- A history that spawned two entities, saw a tick, and acknowledged the first one. -/
def twoSpawned : Result HistoryError HistoryWorld := do
  let first ← (HistoryWorld.new 7).spawn ⟨⟩
  let ticked ← first.2.tick
  let second ← ticked.spawn ⟨⟩
  second.2.acknowledge 1

theorem twoSpawned_journal : ∃ history, twoSpawned = .ok history ∧
    history.pending.envelopes.map HistoryEnvelope.seq = [2] ∧ history.checkWrapper = .ok () := by
  obtain ⟨history, hrun, hseqs⟩ : ∃ history, twoSpawned = .ok history ∧
      (decide (history.acknowledged = 1 ∧ history.nextSeq = 3)) = true :=
    Result.isOkAnd_iff.mp (by decide +kernel)
  have hreach : HistoryReachable history := by
    simp only [twoSpawned, bind_ok_iff] at hrun
    obtain ⟨first, hfirst, ticked, hticked, second, hsecond, hacknowledged⟩ := hrun
    exact .acknowledge (.spawn (.tick (.spawn (.new 7) hfirst) hticked) hsecond) hacknowledged
  obtain ⟨⟨hrange, -⟩, -, -, -, -, -, -, -, hcheck, -, -⟩ := reachable_journal hreach
  obtain ⟨hfirst, hnext⟩ := of_decide_eq_true hseqs
  rw [hfirst, hnext] at hrange
  exact ⟨history, hrun, hrange, hcheck⟩

/-! ### A save the world's loader refuses -/

/-- The legacy copies of a definition agree with its first-listed ability, as the loader of the
world demands of a save with an encounter. -/
def CombatDefinition.checkLegacyCopies (definition : CombatDefinition) : Except String Unit :=
  match definition.abilities.find? fun entry ↦ entry.ability = definition.ability with
  | none => .error "combat definition legacy ability outside its abilities"
  | some first =>
    if first.dice ≠ definition.dice ∨ first.attributeName ≠ definition.attributeName ∨
        first.damage ≠ definition.damage ∨ first.requiresTarget ≠ definition.requiresTarget ∨
        first.allowSelfTarget ≠ definition.allowSelfTarget ∨
        first.outcomeTable ≠ definition.outcomeTable then
      .error "combat definition legacy ability disagrees with its abilities"
    else
      let primaryCost := ((first.costs.find? fun cost ↦ cost.1 = definition.poolId).map
        Prod.snd).getD 0
      if primaryCost ≠ definition.cost then
        .error "combat definition legacy cost disagrees with its abilities"
      else .ok ()

/-- A codec of the world whose loader makes the check above. -/
def ChecksLegacyCopies (decodeWorld : Json → Except String World) : Prop :=
  ∀ json world combat, decodeWorld json = .ok world → world.combat = some combat →
    combat.definition.checkLegacyCopies = .ok ()

def extraCostSpec : EncounterSpec :=
  { duelSpec with abilities :=
      BTreeMap.empty.insert 3 { duelAbility with cost := 0, extraCosts := [⟨2, 1⟩] } }

/-- The start accepts the encounter above with a legacy cost of zero. A save of it does not decode
to the history again, whatever its bytes, where the loader of the world checks the legacy copies. -/
theorem extra_cost_refused : ∃ history, HistoryReachable history ∧
    ∀ (encodeWorld : World → Json) (decodeWorld : Json → Except String World),
      ChecksLegacyCopies decodeWorld →
        HistoryWorld.decode decodeWorld (history.encode encodeWorld) ≠ .ok history := by
  have hrun : ((HistoryWorld.new 0).startEncounterInMode extraCostSpec .turnBased).isOkAnd
      (fun started ↦ started.world.combat.any fun combat ↦
        combat.definition.checkLegacyCopies ≠ .ok ()) = true := by
    decide +kernel
  obtain ⟨history, hstarted, hcombat⟩ := Result.isOkAnd_iff.mp hrun
  obtain ⟨combat, hcombat, hrefused⟩ := (Option.any_eq_true _ _).mp hcombat
  have hreach : HistoryReachable history := .start (.new 0) hstarted
  refine ⟨history, hreach, fun encodeWorld decodeWorld hchecks hdecoded ↦ ?_⟩
  have hloaded := ((journaled_of_reachable hreach).decode_encode encodeWorld decodeWorld).mp
    hdecoded
  exact of_decide_eq_true hrefused (hchecks _ _ combat hloaded hcombat)

end Crpg.Sim
