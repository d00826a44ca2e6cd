import Crpg.Sim.Enqueued
import Crpg.Sim.NaturalEndRun

/-!
# The translation of the legacy queue

A history stages an operation of its world, drains what the operation enqueued and appends the
translation. `Faithful` says, operation by operation, what is appended: every drained event once and
in order, every resolution with its death at once behind it when it killed, and every transition the
operation took. The pairing of a tick takes the deaths from the drained queue and the resolutions
from the facts of the pass; both list the kills in the order of the pass, so that it never runs out
(`executionEvents_deaths`). `HistoryHeld` are the histories a host can hold, loaded ones included,
and `history_translation` is the translation over all of them.
-/

set_option autoImplicit false

namespace Crpg.Sim

open Crpg.Core Crpg.Lib Crpg.Rules Crpg.Data
open Result (bind_ok_iff except_bind_eq_ok isOkAnd_iff mapErr_eq_ok_iff pure_ok_iff)

/-! ### Translations -/

/-- The translation of an event of the execution pass: a resolution with the death it caused behind
it, or an ended order. -/
def TickEvent.translation : TickEvent → List HistoryEvent
  | .resolved produced => resolvedEvent produced :: produced.deaths.map translateLegacy
  | .orderEnded actor => [.orderEnded actor]

def TransitionFacts.translation (facts : TransitionFacts) : List HistoryEvent :=
  pushLead facts ++ turnEvents facts ++ endEvents facts

/-- The pairing of a pass with its own deaths never runs out and leaves none over. -/
theorem executionEvents_deaths (events : List TickEvent) :
    executionEvents (events.flatMap TickEvent.deaths) events =
      .ok (events.flatMap TickEvent.translation) := by
  induction events with
  | nil => rfl
  | cons event rest ih =>
    cases event with
    | orderEnded actor =>
      show (executionEvents (rest.flatMap TickEvent.deaths) rest).bind _ = _
      rw [ih]
      rfl
    | resolved produced =>
      rw [List.flatMap_cons, List.flatMap_cons, TickEvent.deaths, TickEvent.translation,
        ActionOutcome.deaths]
      by_cases hdied : produced.targetDied = true
      · rw [if_pos hdied]
        unfold executionEvents
        rw [if_pos hdied]
        show (executionEvents (rest.flatMap TickEvent.deaths) rest).bind _ = _
        rw [ih]
        rfl
      · rw [if_neg hdied]
        unfold executionEvents
        rw [if_neg hdied]
        show (executionEvents (rest.flatMap TickEvent.deaths) rest).bind _ = _
        rw [ih]
        rfl

theorem tickEvents_deaths (facts : TickFacts) :
    tickEvents facts (facts.events.flatMap TickEvent.deaths) =
      .ok (pushLead facts.transitions ++ turnEvents facts.transitions ++
        facts.events.flatMap TickEvent.translation ++ endEvents facts.transitions) := by
  rw [tickEvents, executionEvents_deaths]
  rfl

theorem pushTransition_single {facts : TransitionFacts}
    (hsingle : facts.turnStarted = none ∨ facts.encounterEnded = none) :
    pushTransition facts = facts.translation := by
  rw [pushTransition, TransitionFacts.translation, List.append_assoc]
  congr 1
  rcases hsingle with hturn | hend
  · simp [turnEvents, hturn]
  · cases hturn : facts.turnStarted with
    | none => simp [turnEvents, hturn]
    | some turn => simp [endEvents, hend]

/-! ### Presence -/

theorem filter_isPresence_translated (legacy : List SimEvent) :
    (legacy.map translateLegacy).filter HistoryEvent.isPresence = legacy.map translateLegacy :=
  List.filter_eq_self.mpr (isPresence_translated legacy)

theorem filter_isPresence_toList {α : Type} (value : Option α) {event : α → HistoryEvent}
    (hplain : ∀ item, (event item).isPresence = false) :
    (value.map event).toList.filter HistoryEvent.isPresence = [] := by
  cases value with
  | none => rfl
  | some item =>
    rw [Option.map_some, Option.toList_some, List.filter_cons, hplain item]
    rfl

theorem filter_isPresence_lead (facts : TransitionFacts) :
    (pushLead facts).filter HistoryEvent.isPresence = [] := by
  rw [pushLead, List.filter_append, filter_isPresence_toList _ fun _ ↦ rfl,
    filter_isPresence_toList _ fun _ ↦ rfl, List.append_nil]

theorem filter_isPresence_turn (facts : TransitionFacts) :
    (turnEvents facts).filter HistoryEvent.isPresence = [] :=
  filter_isPresence_toList _ fun _ ↦ rfl

theorem filter_isPresence_end (facts : TransitionFacts) :
    (endEvents facts).filter HistoryEvent.isPresence = [] :=
  filter_isPresence_toList _ fun _ ↦ rfl

theorem filter_isPresence_transitions (facts : TransitionFacts) :
    facts.translation.filter HistoryEvent.isPresence = [] := by
  rw [TransitionFacts.translation, List.filter_append, List.filter_append, filter_isPresence_lead,
    filter_isPresence_turn, filter_isPresence_end]
  rfl

theorem filter_isPresence_pass (events : List TickEvent) :
    (events.flatMap TickEvent.translation).filter HistoryEvent.isPresence =
      (events.flatMap TickEvent.deaths).map translateLegacy := by
  induction events with
  | nil => rfl
  | cons event rest ih =>
    rw [List.flatMap_cons, List.flatMap_cons, List.filter_append, List.map_append, ih]
    congr 1
    cases event with
    | orderEnded actor => rfl
    | resolved produced => exact filter_isPresence_translated produced.deaths

/-! ### Commits -/

/-- A history whose inner queue is empty, with a counter in range, and whose real-time play is
idle. -/
structure HistoryWorld.Ready (history : HistoryWorld) : Prop where
  empty : history.world.events.envelopes = []
  counter : history.world.events.nextSeq ≤ u64Max
  idle : history.world.Idle

/-- What an operation did to a history, given the world the bare operation returns, the events it
enqueued and their translation: exactly the translation is appended, it holds the enqueued events
once and in order, and the inner world is the returned one without its queue. -/
structure Translated (history next : HistoryWorld) (bare : World) (legacy : List SimEvent)
    (events : List HistoryEvent) : Prop where
  queue : bare.payloads = legacy
  pending : next.pending.envelopes =
    history.pending.envelopes ++ envelopesFrom bare.tick history.nextSeq events
  order : events.filter HistoryEvent.isPresence = legacy.map translateLegacy
  inner : next.world = { bare with events := { bare.events with envelopes := [] } }

namespace HistoryWorld

variable {history next : HistoryWorld}

theorem Ready.commit (hready : history.Ready) {start staged : World} {legacy : List SimEvent}
    {collect : List SimEvent → Result HistoryError (List HistoryEvent)}
    {events : List HistoryEvent} (hstart : start.events = history.world.events)
    (henqueues : Enqueues start staged legacy) (hidle : staged.Idle)
    (hcollect : collect legacy = .ok events)
    (horder : events.filter HistoryEvent.isPresence = legacy.map translateLegacy)
    (hcommit : history.commitDrained staged collect = .ok next) :
    next.Ready ∧ Translated history next staged legacy events := by
  have hqueue : staged.events = history.world.events.pushAll start.tick legacy := by
    rw [henqueues.queue, hstart]
  have hdrained : staged.drainEvents.1 = legacy := by
    rw [World.drainEvents, hqueue]
    exact EventQueue.drain_pushAll hready.empty hready.counter start.tick legacy
  have hascending : history.world.events.Ascending start.tick := by
    refine ⟨?_, ?_, hready.counter⟩
    · rw [hready.empty]
      exact List.Pairwise.nil
    · rw [hready.empty]
      exact nofun
  obtain ⟨collected, hcollected, hcommit⟩ := Result.bind_eq_ok_iff.mp hcommit
  rw [hdrained, hcollect, Result.ok.injEq] at hcollected
  subst hcollected
  simp only [HistoryWorld.commit, bind_ok_iff, pure_ok_iff] at hcommit
  obtain ⟨_, -, _, -, _, -, final, hfold, rfl⟩ := hcommit
  obtain ⟨henvelopes, -, -⟩ := HistoryWorld.foldlM_stageEvent hfold
  rw [List.nil_append] at henvelopes
  refine ⟨⟨rfl, ?_, hidle.congr rfl⟩, ?_, ?_, horder, rfl⟩
  · show staged.events.nextSeq ≤ u64Max
    rw [hqueue]
    exact (hascending.pushAll legacy).counter
  · have hpayloads := henqueues.payloads
    rw [World.payloads, World.payloads, hstart, hready.empty] at hpayloads
    exact hpayloads
  · show history.pending.envelopes ++ final.envelopes = _
    rw [henvelopes]
    rfl

/-- An operation that translates its queue and nothing else. -/
theorem Ready.commitTranslated (hready : history.Ready) {staged : World} {legacy : List SimEvent}
    (henqueues : Enqueues history.world staged legacy) (hidle : staged.Idle)
    (hcommit : history.commitDrained staged translated = .ok next) :
    next.Ready ∧ Translated history next staged legacy (legacy.map translateLegacy) :=
  hready.commit rfl henqueues hidle rfl (filter_isPresence_translated legacy) hcommit

/-! ### Operations -/

theorem Ready.spawnWithCreature (hready : history.Ready) {data : EntityMeta}
    {creature : Option CreatureState} {id : EntityId}
    (hspawn : history.spawnWithCreature data creature = .ok (id, next)) :
    next.Ready ∧ ∃ bare, history.world.spawn data = some (id, bare) ∧
      Translated history next { bare with creatures := insertSome bare.creatures id creature }
        [.spawned id] [.spawned id] := by
  simp only [HistoryWorld.spawnWithCreature, bind_ok_iff, pure_ok_iff, Result.expect_eq_ok_iff,
    Prod.mk.injEq] at hspawn
  obtain ⟨⟨minted, bare⟩, hspawned, after, hcommit, rfl, rfl⟩ := hspawn
  obtain ⟨henqueues, hcombat⟩ := spawn_enqueues hspawned
  have hidle : World.Idle { bare with creatures := insertSome bare.creatures minted creature } :=
    hready.idle.congr hcombat
  have hrecorded : Enqueues history.world
      { bare with creatures := insertSome bare.creatures minted creature } [.spawned minted] :=
    ⟨henqueues.tick, henqueues.queue⟩
  obtain ⟨hnext, htranslated⟩ := hready.commitTranslated hrecorded hidle hcommit
  exact ⟨hnext, bare, hspawned, htranslated⟩

theorem Ready.registerCreature (hready : history.Ready) {spec : CreatureSpec} {id : EntityId}
    (hregister : history.registerCreature spec = .ok (id, next)) :
    next.Ready ∧ ∃ bare, Crpg.Sim.registerCreature history.world spec = .ok (id, bare) ∧
      Translated history next bare [.spawned id] [.spawned id] := by
  simp only [HistoryWorld.registerCreature, bind_ok_iff, pure_ok_iff, mapErr_eq_ok_iff,
    Prod.mk.injEq] at hregister
  obtain ⟨⟨minted, bare⟩, hregistered, after, hcommit, rfl, rfl⟩ := hregister
  obtain ⟨henqueues, hcombat⟩ := registerCreature_enqueues hregistered
  obtain ⟨hnext, htranslated⟩ := hready.commitTranslated henqueues (hready.idle.congr hcombat)
    hcommit
  exact ⟨hnext, bare, hregistered, htranslated⟩

theorem order_trailing (lead : List HistoryEvent) (legacy : List SimEvent)
    (facts : TransitionFacts) (hlead : lead.filter HistoryEvent.isPresence = []) :
    (lead ++ legacy.map translateLegacy ++ facts.translation).filter HistoryEvent.isPresence =
      legacy.map translateLegacy := by
  rw [List.filter_append, List.filter_append, hlead, filter_isPresence_translated,
    filter_isPresence_transitions, List.nil_append, List.append_nil]

section

variable (hready : history.Ready)
include hready

theorem Ready.despawn {entity : EntityId} {removed : Bool}
    (hdespawn : history.despawn entity = .ok (removed, next)) : next.Ready ∧ ∃ facts bare,
      despawnTracked history.world entity = .ok ((removed, facts), bare) ∧
      Translated history next bare (if removed then [.despawned entity] else [])
        ((if removed then [.despawned entity] else []) ++ facts.translation) := by
  simp only [HistoryWorld.despawn, bind_ok_iff, pure_ok_iff, mapErr_eq_ok_iff, Prod.mk.injEq]
    at hdespawn
  obtain ⟨⟨⟨gone, facts⟩, bare⟩, htracked, after, hcommit, rfl, rfl⟩ := hdespawn
  have hacts := despawnTracked_acts hready.idle htracked
  have hlegacy : (if gone then [HistoryEvent.despawned entity] else []) =
      (if gone then [SimEvent.despawned entity] else []).map translateLegacy := by
    split_ifs
    · rfl
    · rfl
  refine (hready.commit rfl hacts.enqueues hacts.idle ?_ ?_ hcommit).imp_right
    fun htranslated ↦ ⟨facts, bare, htracked, htranslated⟩
  · rw [hlegacy, pushTransition_single hacts.single]
  · rw [hlegacy]
    exact order_trailing [] _ facts rfl

theorem Ready.tick (htick : history.tick = .ok next) :
    next.Ready ∧ ∃ facts bare, tickTracked history.world = .ok (facts, bare) ∧
      Translated history next bare (facts.events.flatMap TickEvent.deaths)
        (pushLead facts.transitions ++ turnEvents facts.transitions ++
          facts.events.flatMap TickEvent.translation ++ endEvents facts.transitions) := by
  simp only [HistoryWorld.tick, bind_ok_iff, mapErr_eq_ok_iff] at htick
  obtain ⟨⟨facts, bare⟩, hticked, hcommit⟩ := htick
  obtain ⟨henqueues, hidle⟩ := tickTracked_enqueues hready.idle hticked
  have hqueue : history.world.advanceTick.events = history.world.events := rfl
  refine (hready.commit hqueue henqueues hidle (tickEvents_deaths facts) ?_ hcommit).imp_right
    fun htranslated ↦ ⟨facts, bare, hticked, htranslated⟩
  rw [List.filter_append, List.filter_append, List.filter_append, filter_isPresence_lead,
    filter_isPresence_turn, filter_isPresence_pass, filter_isPresence_end, List.append_nil]
  rfl

theorem Ready.paired {facts : TickFacts} {bare : World}
    (hticked : tickTracked history.world = .ok (facts, bare)) :
    ∃ events, tickEvents facts bare.drainEvents.1 = .ok events := by
  have henqueues := (tickTracked_enqueues hready.idle hticked).1
  have hdrained : bare.drainEvents.1 = facts.events.flatMap TickEvent.deaths := by
    rw [World.drainEvents, henqueues.queue]
    exact EventQueue.drain_pushAll hready.empty hready.counter _ _
  rw [hdrained]
  exact ⟨_, tickEvents_deaths facts⟩

theorem Ready.startEncounterInMode {spec : EncounterSpec} {mode : EncounterMode}
    (hstart : history.startEncounterInMode spec mode = .ok next) :
    next.Ready ∧ ∃ facts bare, ∃ minted : List EntityId,
      startEncounterInModeTracked history.world spec mode = .ok (facts, bare) ∧
      Translated history next bare (minted.map .spawned) (minted.map .spawned ++
        (facts.initialTurn.map fun turn ↦ HistoryEvent.turnStarted turn.1 turn.2).toList) := by
  simp only [HistoryWorld.startEncounterInMode, bind_ok_iff, mapErr_eq_ok_iff] at hstart
  obtain ⟨⟨facts, bare⟩, hstarted, hcommit⟩ := hstart
  obtain ⟨⟨minted, henqueues⟩, hidle⟩ := startEncounterInModeTracked_enqueues hstarted
  have hlegacy : minted.map HistoryEvent.spawned =
      (minted.map SimEvent.spawned).map translateLegacy := by
    rw [List.map_map]
    rfl
  refine (hready.commit rfl henqueues hidle ?_ ?_ hcommit).imp_right
    fun htranslated ↦ ⟨facts, bare, minted, hstarted, htranslated⟩
  · rw [hlegacy]
  · rw [hlegacy, List.filter_append, filter_isPresence_translated,
      filter_isPresence_toList _ fun _ ↦ rfl, List.append_nil]

theorem Ready.performAction {action : CombatAction} {outcome : Option ActionOutcome}
    (hperform : history.performAction action = .ok (outcome, next)) : next.Ready ∧ ∃ facts bare,
      performActionTracked history.world action = .ok ((outcome, facts), bare) ∧
      Translated history next bare (deathsOf outcome) ((outcome.map resolvedEvent).toList ++
        (deathsOf outcome).map translateLegacy ++ facts.translation) := by
  simp only [HistoryWorld.performAction, bind_ok_iff, pure_ok_iff, mapErr_eq_ok_iff, Prod.mk.injEq]
    at hperform
  obtain ⟨⟨⟨produced, facts⟩, bare⟩, hperformed, after, hcommit, rfl, rfl⟩ := hperform
  have hacts := performActionTracked_acts hready.idle hperformed
  refine (hready.commit rfl hacts.enqueues hacts.idle ?_ ?_ hcommit).imp_right
    fun htranslated ↦ ⟨facts, bare, hperformed, htranslated⟩
  · rw [pushTransition_single hacts.single]
  · exact order_trailing _ _ facts (filter_isPresence_toList _ fun _ ↦ rfl)

theorem Ready.endEncounter {summary : EncounterSummary}
    (hend : history.endEncounter = .ok (summary, next)) :
    next.Ready ∧ ∃ bare, Crpg.Sim.endEncounter history.world = .ok (summary, bare) ∧
      Translated history next bare [] [] := by
  simp only [HistoryWorld.endEncounter, bind_ok_iff, pure_ok_iff, mapErr_eq_ok_iff, Prod.mk.injEq]
    at hend
  obtain ⟨⟨released, bare⟩, hended, after, hcommit, rfl, rfl⟩ := hend
  obtain ⟨henqueues, hidle⟩ := endEncounter_enqueues hended
  exact (hready.commitTranslated henqueues hidle hcommit).imp_right
    fun htranslated ↦ ⟨bare, hended, htranslated⟩

theorem Ready.requestMode {mode : EncounterMode} (hrequest : history.requestMode mode = .ok next) :
    next.Ready ∧ ∃ bare, Crpg.Sim.requestMode history.world mode = .ok bare ∧
      Translated history next bare [] [] := by
  simp only [HistoryWorld.requestMode, bind_ok_iff, mapErr_eq_ok_iff] at hrequest
  obtain ⟨bare, hrequested, hcommit⟩ := hrequest
  obtain ⟨henqueues, hidle⟩ := requestMode_enqueues hready.idle hrequested
  exact (hready.commit rfl henqueues hidle rfl rfl hcommit).imp_right
    fun htranslated ↦ ⟨bare, hrequested, htranslated⟩

end

/-- An acknowledgement appends nothing and leaves the world alone. -/
theorem world_acknowledge {through : ℕ} (hacknowledge : history.acknowledge through = .ok next) :
    next.world = history.world ∧
      next.pending.envelopes = history.pending.envelopes.drop (through - history.acknowledged) := by
  unfold HistoryWorld.acknowledge at hacknowledge
  split_ifs at hacknowledge with hfuture hstale
  · cases hacknowledge
    rw [Nat.sub_eq_zero_of_le hstale]
    exact ⟨rfl, rfl⟩
  · cases hacknowledge
    exact ⟨rfl, Journal.envelopes_drainPrefix ..⟩

theorem transferHistoryEntity_sides {source destination left entered : HistoryWorld}
    {entity moved : EntityId}
    (htransfer : transferHistoryEntity source destination entity = .ok (moved, left, entered)) :
    (∃ removed, source.despawn entity = .ok (removed, left)) ∧
      ∃ data arrived, destination.spawnWithCreature data (source.world.creatures.get? entity) =
          .ok (moved, arrived) ∧
        entered = arrived.attachTransform moved (source.world.transforms.get? entity) := by
  simp only [transferHistoryEntity, bind_ok_iff, pure_ok_iff, mapErr_eq_ok_iff, Prod.mk.injEq]
    at htransfer
  obtain ⟨_, -, data, -, ⟨removed, after⟩, hdespawn, ⟨minted, arrived⟩, hspawn, rfl, rfl, rfl⟩ :=
    htransfer
  exact ⟨⟨removed, hdespawn⟩, data, arrived, hspawn, rfl⟩

end HistoryWorld

/-! ### Every operation -/

/-- The translation of every operation of one history that succeeds. -/
structure Faithful (history : HistoryWorld) : Prop where
  spawn : ∀ data creature id next, history.spawnWithCreature data creature = .ok (id, next) →
    ∃ bare, history.world.spawn data = some (id, bare) ∧
      Translated history next { bare with creatures := insertSome bare.creatures id creature }
        [.spawned id] [.spawned id]
  register : ∀ spec id next, history.registerCreature spec = .ok (id, next) →
    ∃ bare, registerCreature history.world spec = .ok (id, bare) ∧
      Translated history next bare [.spawned id] [.spawned id]
  despawn : ∀ entity removed next, history.despawn entity = .ok (removed, next) →
    ∃ facts bare, despawnTracked history.world entity = .ok ((removed, facts), bare) ∧
      Translated history next bare (if removed then [.despawned entity] else [])
        ((if removed then [.despawned entity] else []) ++ facts.translation)
  tick : ∀ next, history.tick = .ok next →
    ∃ facts bare, tickTracked history.world = .ok (facts, bare) ∧
      Translated history next bare (facts.events.flatMap TickEvent.deaths)
        (pushLead facts.transitions ++ turnEvents facts.transitions ++
          facts.events.flatMap TickEvent.translation ++ endEvents facts.transitions)
  paired : ∀ facts bare, tickTracked history.world = .ok (facts, bare) →
    ∃ events, tickEvents facts bare.drainEvents.1 = .ok events
  start : ∀ spec mode next, history.startEncounterInMode spec mode = .ok next →
    ∃ facts bare, ∃ minted : List EntityId,
      startEncounterInModeTracked history.world spec mode = .ok (facts, bare) ∧
      Translated history next bare (minted.map .spawned) (minted.map .spawned ++
        (facts.initialTurn.map fun turn ↦ HistoryEvent.turnStarted turn.1 turn.2).toList)
  perform : ∀ action outcome next, history.performAction action = .ok (outcome, next) →
    ∃ facts bare, performActionTracked history.world action = .ok ((outcome, facts), bare) ∧
      Translated history next bare (deathsOf outcome) ((outcome.map resolvedEvent).toList ++
        (deathsOf outcome).map translateLegacy ++ facts.translation)
  release : ∀ summary next, history.endEncounter = .ok (summary, next) →
    ∃ bare, endEncounter history.world = .ok (summary, bare) ∧ Translated history next bare [] []
  request : ∀ mode next, history.requestMode mode = .ok next →
    ∃ bare, requestMode history.world mode = .ok bare ∧ Translated history next bare [] []
  acknowledge : ∀ through next, history.acknowledge through = .ok next →
    next.world = history.world ∧
      next.pending.envelopes = history.pending.envelopes.drop (through - history.acknowledged)

theorem HistoryWorld.Ready.faithful {history : HistoryWorld} (hready : history.Ready) :
    Faithful history where
  spawn := fun _ _ _ _ hspawn ↦ (hready.spawnWithCreature hspawn).2
  register := fun _ _ _ hregister ↦ (hready.registerCreature hregister).2
  despawn := fun _ _ _ hdespawn ↦ (hready.despawn hdespawn).2
  tick := fun _ htick ↦ (hready.tick htick).2
  paired := fun _ _ hticked ↦ hready.paired hticked
  start := fun _ _ _ hstart ↦ (hready.startEncounterInMode hstart).2
  perform := fun _ _ _ hperform ↦ (hready.performAction hperform).2
  release := fun _ _ hend ↦ (hready.endEncounter hend).2
  request := fun _ _ hrequest ↦ (hready.requestMode hrequest).2
  acknowledge := fun _ _ hacknowledge ↦ HistoryWorld.world_acknowledge hacknowledge

/-! ### Held histories -/

/-- The checks of the world loader on the turn and the event counter: a real-time encounter holds no
active turn, and the counter is a 64-bit number. -/
def turnCoherent (world : World) : Bool :=
  decide (world.events.nextSeq ≤ u64Max) &&
    match world.combat with
    | none => true
    | some combat => combat.mode ≠ .realTime || combat.active.isNone

/-- The histories a host can hold: new ones, loaded ones, and what the operations make of them. -/
inductive HistoryHeld : HistoryWorld → Prop
  | new (seed : UInt64) : HistoryHeld (HistoryWorld.new seed)
  | newInArea (seed : UInt64) (area : Ulid) : HistoryHeld (HistoryWorld.newInArea seed area)
  | loaded {decodeWorld : Json → Except String World} {value : Json} {history : HistoryWorld}
      (decoded : HistoryWorld.decode decodeWorld value = .ok history)
      (checked : turnCoherent history.world = true) : HistoryHeld history
  | step {history next : HistoryWorld} {op : HistoryOp} (held : HistoryHeld history)
      (stepped : history.step op = some next) : HistoryHeld next

namespace HistoryWorld

variable {history next : HistoryWorld}

theorem ready_new (seed : UInt64) : (HistoryWorld.new seed).Ready :=
  ⟨rfl, Nat.zero_le _, World.idle_none rfl⟩

theorem ready_newInArea (seed : UInt64) (area : Ulid) : (HistoryWorld.newInArea seed area).Ready :=
  ⟨rfl, Nat.zero_le _, World.idle_none rfl⟩

theorem checkWrapper_of_decode {decodeWorld : Json → Except String World} {value : Json}
    (hdecode : HistoryWorld.decode decodeWorld value = .ok history) :
    history.checkWrapper = .ok () := by
  obtain ⟨fields, -, hdecode⟩ := except_bind_eq_ok hdecode
  obtain ⟨seen, -, hdecode⟩ := except_bind_eq_ok hdecode
  obtain ⟨version, -, hdecode⟩ := except_bind_eq_ok hdecode
  obtain ⟨world, -, hdecode⟩ := except_bind_eq_ok hdecode
  obtain ⟨acknowledged, -, hdecode⟩ := except_bind_eq_ok hdecode
  obtain ⟨nextSeq, -, hdecode⟩ := except_bind_eq_ok hdecode
  obtain ⟨pending, -, hdecode⟩ := except_bind_eq_ok hdecode
  obtain ⟨⟨⟩, hchecked, hsame⟩ := except_bind_eq_ok hdecode
  rw [← Except.ok.inj hsame]
  exact hchecked

theorem ready_loaded (hchecked : history.checkWrapper = .ok ())
    (hturn : turnCoherent history.world = true) : history.Ready := by
  rw [turnCoherent, Bool.and_eq_true, decide_eq_true_eq] at hturn
  refine ⟨?_, hturn.1, fun combat hcombat hmode ↦ ?_⟩
  · unfold HistoryWorld.checkWrapper at hchecked
    split_ifs at hchecked with _ _ _ _ _ hqueue
    rw [Bool.not_eq_false, EventQueue.isEmpty, List.isEmpty_iff] at hqueue
    exact hqueue
  · have hactive := hturn.2
    rw [hcombat] at hactive
    simp only [hmode, ne_eq, not_true_eq_false, decide_false, Bool.false_or,
      Option.isNone_iff_eq_none] at hactive
    exact hactive

theorem Ready.attachTransform (hready : history.Ready) (entity : EntityId)
    (transform : Option Transform) : (history.attachTransform entity transform).Ready :=
  ⟨hready.empty, hready.counter, hready.idle.congr rfl⟩

theorem Ready.step (hready : history.Ready) {op : HistoryOp}
    (hstep : history.step op = some next) : next.Ready := by
  cases op with
  | spawn data =>
    refine after_elim hstep hready fun ⟨id, after⟩ hreturned ↦ ?_
    exact (hready.spawnWithCreature hreturned).1
  | registerCreature spec =>
    refine after_elim hstep hready fun ⟨id, after⟩ hreturned ↦ ?_
    exact (hready.registerCreature hreturned).1
  | despawn entity =>
    refine after_elim hstep hready fun ⟨removed, after⟩ hreturned ↦ ?_
    exact (hready.despawn hreturned).1
  | tick =>
    refine after_elim hstep hready fun after hreturned ↦ ?_
    exact (hready.tick hreturned).1
  | startEncounterInMode spec mode =>
    refine after_elim hstep hready fun after hreturned ↦ ?_
    exact (hready.startEncounterInMode hreturned).1
  | performAction action =>
    refine after_elim hstep hready fun ⟨outcome, after⟩ hreturned ↦ ?_
    exact (hready.performAction hreturned).1
  | endEncounter =>
    refine after_elim hstep hready fun ⟨summary, after⟩ hreturned ↦ ?_
    exact (hready.endEncounter hreturned).1
  | requestMode mode =>
    refine after_elim hstep hready fun after hreturned ↦ ?_
    exact (hready.requestMode hreturned).1
  | acknowledge through =>
    refine after_elim hstep hready fun after hreturned ↦ ?_
    obtain ⟨hworld, -⟩ := world_acknowledge hreturned
    exact ⟨hworld ▸ hready.empty, hworld ▸ hready.counter, hworld ▸ hready.idle⟩
  | transferOut destination entity =>
    refine after_elim hstep hready fun ⟨moved, left, entered⟩ hreturned ↦ ?_
    obtain ⟨⟨removed, hdespawn⟩, -⟩ := transferHistoryEntity_sides hreturned
    exact (hready.despawn hdespawn).1
  | transferIn source entity =>
    refine after_elim hstep hready fun ⟨moved, left, entered⟩ hreturned ↦ ?_
    obtain ⟨-, data, arrived, hspawn, hentered⟩ := transferHistoryEntity_sides hreturned
    have harrived := (hready.spawnWithCreature hspawn).1
    rw [hentered]
    exact harrived.attachTransform moved _

end HistoryWorld

theorem ready_of_held {history : HistoryWorld} (hheld : HistoryHeld history) : history.Ready := by
  induction hheld with
  | new seed => exact HistoryWorld.ready_new seed
  | newInArea seed area => exact HistoryWorld.ready_newInArea seed area
  | loaded decoded checked =>
    exact HistoryWorld.ready_loaded (HistoryWorld.checkWrapper_of_decode decoded) checked
  | step held stepped ih => exact ih.step stepped

theorem transferHistoryEntity_translated {source destination left entered : HistoryWorld}
    {entity moved : EntityId} (hsource : source.Ready) (hdestination : destination.Ready)
    (htransfer : transferHistoryEntity source destination entity = .ok (moved, left, entered)) :
    (∃ removed facts bare, despawnTracked source.world entity = .ok ((removed, facts), bare) ∧
      Translated source left bare (if removed then [.despawned entity] else [])
        ((if removed then [.despawned entity] else []) ++ facts.translation)) ∧
    ∃ data bare, destination.world.spawn data = some (moved, bare) ∧
      Translated destination entered { bare with
        creatures := insertSome bare.creatures moved (source.world.creatures.get? entity)
        transforms := insertSome bare.transforms moved (source.world.transforms.get? entity) }
        [.spawned moved] [.spawned moved] := by
  obtain ⟨⟨removed, hdespawn⟩, data, arrived, hspawn, hentered⟩ :=
    HistoryWorld.transferHistoryEntity_sides htransfer
  obtain ⟨-, facts, bare, hleft⟩ := hsource.despawn hdespawn
  obtain ⟨-, minted, hminted, htranslated⟩ := hdestination.spawnWithCreature hspawn
  refine ⟨⟨removed, facts, bare, hleft⟩, data, minted, hminted, ?_⟩
  rw [hentered]
  refine ⟨htranslated.queue, htranslated.pending, htranslated.order, ?_⟩
  rw [HistoryWorld.attachTransform, htranslated.inner]

theorem resolveUse_kills {world next : World} {actor target : EntityId} {ability : Ulid}
    {produced : ActionOutcome}
    (hvalid : validateAction world (.useAbility actor ability target) = .ok ())
    (hresolve : resolveUse world actor ability target = .ok (produced, next)) :
    produced.target = target ∧ Living world.combatants target ∧
      (produced.targetDied = true ↔ ¬Living next.combatants target) := by
  obtain ⟨hactor, htarget⟩ := living_of_validateAction hvalid
  exact ⟨(resolveUse_names hresolve).2.1, htarget, (resolveUse_harmed hactor htarget hresolve).2.1⟩

end Crpg.Sim
