import Crpg.Sim.Mortality

/-!
# What the operations enqueue

Every operation of the world pushes its events at one tick, in the order in which they happen, and
a drain of a queue that was empty gives them back in that order (`drain_pushAll`). `Enqueues` names
the events of an operation; it composes, and the passes at a boundary enqueue nothing. A pass over
due orders enqueues one death for each resolution that killed, in the order of the resolutions. In
real-time play nobody holds a turn (`World.Idle`), so that a removal takes one trailing transition.
-/

set_option autoImplicit false

namespace Crpg.Core.EventQueue

variable {P : Type*}

def pushAll (queue : EventQueue P) (tick : ℕ) (payloads : List P) : EventQueue P :=
  payloads.foldl (fun queue payload ↦ queue.push tick payload) queue

theorem pushAll_append (queue : EventQueue P) (tick : ℕ) (first second : List P) :
    queue.pushAll tick (first ++ second) = (queue.pushAll tick first).pushAll tick second :=
  List.foldl_append

structure Ascending (queue : EventQueue P) (tick : ℕ) : Prop where
  sorted : queue.envelopes.Pairwise fun first second ↦
    toLex (first.tick, first.seq) ≤ toLex (second.tick, second.seq)
  below : ∀ envelope ∈ queue.envelopes,
    toLex (envelope.tick, envelope.seq) ≤ toLex (tick, queue.nextSeq)
  counter : queue.nextSeq ≤ u64Max

variable {queue : EventQueue P}

/-- A push keeps the order; at the bound of the counter it repeats the last sequence. -/
theorem Ascending.push {tick : ℕ} (hqueue : queue.Ascending tick) (payload : P) :
    (queue.push tick payload).Ascending tick := by
  have hnext : queue.nextSeq ≤ saturatingAdd u64Max queue.nextSeq 1 :=
    le_min hqueue.counter (Nat.le_succ _)
  have hlater : toLex (tick, queue.nextSeq) ≤
      toLex (tick, saturatingAdd u64Max queue.nextSeq 1) :=
    Prod.Lex.toLex_le_toLex.mpr (Or.inr ⟨rfl, hnext⟩)
  refine ⟨?_, fun envelope hmem ↦ ?_, min_le_left _ _⟩
  · refine List.pairwise_append.mpr ⟨hqueue.sorted, List.pairwise_singleton _ _, ?_⟩
    intro old hold new hnew
    rw [List.mem_singleton.mp hnew]
    exact hqueue.below old hold
  · rcases List.mem_append.mp hmem with hold | hnew
    · exact (hqueue.below envelope hold).trans hlater
    · rw [List.mem_singleton.mp hnew]
      exact hlater

theorem Ascending.pushAll {tick : ℕ} (hqueue : queue.Ascending tick) (payloads : List P) :
    (queue.pushAll tick payloads).Ascending tick := by
  induction payloads generalizing queue with
  | nil => exact hqueue
  | cons payload rest ih => exact ih (hqueue.push payload)

theorem map_payload_pushAll (queue : EventQueue P) (tick : ℕ) (payloads : List P) :
    (queue.pushAll tick payloads).envelopes.map EventEnvelope.payload =
      queue.envelopes.map EventEnvelope.payload ++ payloads := by
  induction payloads generalizing queue with
  | nil => exact (List.append_nil _).symm
  | cons payload rest ih =>
    have hpushed := ih (queue.push tick payload)
    rw [EventQueue.push, List.map_append, List.append_assoc] at hpushed
    exact hpushed

theorem Ascending.drain {tick : ℕ} (hqueue : queue.Ascending tick) :
    queue.drain = (queue.envelopes, { queue with envelopes := [] }) := by
  rw [EventQueue.drain, hqueue.sorted.insertionSort_eq]

theorem drain_pushAll (hempty : queue.envelopes = []) (hcounter : queue.nextSeq ≤ u64Max)
    (tick : ℕ) (payloads : List P) :
    (queue.pushAll tick payloads).drain.1.map EventEnvelope.payload = payloads := by
  have hqueue : queue.Ascending tick := by
    refine ⟨?_, ?_, hcounter⟩
    · rw [hempty]
      exact List.Pairwise.nil
    · rw [hempty]
      exact nofun
  rw [(hqueue.pushAll payloads).drain, map_payload_pushAll, hempty]
  rfl

end Crpg.Core.EventQueue

namespace Crpg.Sim

open Crpg.Core Crpg.Lib Crpg.Rules Crpg.Data
open Result (bind_eq_ok_iff bind_ok_iff pure_ok_iff)

/-! ### The events of an operation -/

structure Enqueues (before after : World) (events : List SimEvent) : Prop where
  tick : after.tick = before.tick
  queue : after.events = before.events.pushAll before.tick events

namespace Enqueues

variable {first second third : World} {early late : List SimEvent}

theorem refl (world : World) : Enqueues world world [] := ⟨rfl, rfl⟩

theorem trans (hfirst : Enqueues first second early) (hsecond : Enqueues second third late) :
    Enqueues first third (early ++ late) where
  tick := hsecond.tick.trans hfirst.tick
  queue := by rw [hsecond.queue, hfirst.queue, hfirst.tick, EventQueue.pushAll_append]

/-- A quiet step after an operation. -/
theorem quiet (hfirst : Enqueues first second early) (hsecond : Enqueues second third []) :
    Enqueues first third early := by
  have hboth := hfirst.trans hsecond
  rwa [List.append_nil] at hboth

/-- A change of anything but the queue and the tick. -/
theorem of_eq (htick : second.tick = first.tick) (hqueue : second.events = first.events) :
    Enqueues first second [] := ⟨htick, hqueue⟩

theorem payloads (henqueues : Enqueues first second early) :
    second.payloads = first.payloads ++ early := by
  rw [World.payloads, henqueues.queue, EventQueue.map_payload_pushAll]
  rfl

end Enqueues

/-! ### Transitions -/

/-- What a transition does to a world: it enqueues events, leaves real-time play idle, and starts a
turn or ends the encounter, not both. -/
structure Acts (world next : World) (events : List SimEvent) (facts : TransitionFacts) : Prop where
  enqueues : Enqueues world next events
  idle : next.Idle
  single : facts.turnStarted = none ∨ facts.encounterEnded = none

variable {world next : World}

theorem Passed.enqueues {strict : Prop} (hpassed : Passed strict world next) :
    Enqueues world next [] := by
  obtain ⟨_, _, _, rfl⟩ := hpassed.frame
  exact Enqueues.of_eq rfl rfl

variable {facts : TransitionFacts}

theorem Transits.acts {strict quiet : Prop} {middle : World} {events : List SimEvent}
    (htransits : Transits strict quiet middle next facts) (hquiet : quiet)
    (henqueues : Enqueues world middle events) : Acts world next events facts :=
  ⟨henqueues.quiet htransits.passed.enqueues, htransits.idle hquiet, htransits.single⟩

/-! ### Resolutions -/

/-- The death a resolution enqueues: the one of its target, when it killed. -/
def ActionOutcome.deaths (produced : ActionOutcome) : List SimEvent :=
  if produced.targetDied then [.died produced.target] else []

def TickEvent.deaths : TickEvent → List SimEvent
  | .resolved produced => produced.deaths
  | .orderEnded _ => []

theorem applyDamage_enqueues {target : EntityId} {damage : ℕ} {died : Bool}
    (hdamage : applyDamage world target damage = .ok (next, died)) :
    Enqueues world next (if died then [.died target] else []) := by
  unfold applyDamage at hdamage
  split_ifs at hdamage with hpositive
  · obtain ⟨state, -, hhit⟩ := bind_eq_ok_iff.mp hdamage
    dsimp only at hhit
    split_ifs at hhit with hdead
    · cases hhit
      exact ⟨rfl, rfl⟩
    · cases hhit
      exact Enqueues.of_eq rfl rfl
  · cases hdamage
    exact Enqueues.refl world

theorem resolveUse_enqueues {actor target : EntityId} {ability : Ulid} {produced : ActionOutcome}
    (hresolve : resolveUse world actor ability target = .ok (produced, next)) :
    Enqueues world next produced.deaths ∧ next.combat = world.combat := by
  have hframe := resolveUse_frame hresolve
  have hcombat : next.combat = world.combat := by
    obtain ⟨_, _, _, _, rfl, -⟩ := hframe
    rfl
  refine ⟨?_, hcombat⟩
  simp only [resolveUse, bind_ok_iff, Result.pure_eq] at hresolve
  obtain ⟨combat, -, entry, -, plan, -, resolved, -, damage, -, spent, hspent, damaged, hdamaged,
    roll, -, hnext⟩ := hresolve
  simp only [Result.ok.injEq, Prod.mk.injEq] at hnext
  obtain ⟨rfl, rfl⟩ := hnext
  obtain ⟨interners, hinterned⟩ := internDefense_frame world entry.defense
  rw [hinterned] at hspent
  obtain ⟨_, rfl, -⟩ := spendCosts_frame hspent
  obtain ⟨_, heffect, -⟩ := applyEffect_frame damaged.1 combat.definition entry
    resolved.1.decision.outcome actor target combat.round
  rw [heffect]
  have hhit := applyDamage_enqueues hdamaged
  exact ⟨hhit.tick, hhit.queue⟩

def deathsOf (produced : Option ActionOutcome) : List SimEvent :=
  (produced.map ActionOutcome.deaths).getD []

theorem performActionTracked_acts {action : CombatAction} {produced : Option ActionOutcome}
    (hidle : world.Idle)
    (hperform : performActionTracked world action = .ok ((produced, facts), next)) :
    Acts world next (deathsOf produced) facts := by
  rcases performActionTracked_cases False.elim hperform with ⟨rfl, htransits⟩ |
    ⟨outcome, resolved, rfl, ⟨actor, ability, target, -, -, hresolve⟩, htransits⟩
  · exact htransits.acts hidle (Enqueues.refl world)
  · exact htransits.acts trivial (resolveUse_enqueues hresolve).1

/-! ### The tick -/

theorem executeOrder_enqueues {elapsed roundTicks : ℕ} {actor : EntityId} {order : StandingOrder}
    {event : TickEvent}
    (hexecute : executeOrder elapsed roundTicks world actor order = .ok (event, next)) :
    Enqueues world next event.deaths := by
  obtain ⟨-, ⟨rfl, hpassed⟩ |
    ⟨outcome, resolved, rfl, ⟨actor, ability, target, -, -, hresolve⟩, hpassed⟩⟩ :=
    executeOrder_cases False hexecute
  · exact hpassed.enqueues
  · exact (resolveUse_enqueues hresolve).1.quiet hpassed.enqueues

theorem tickTracked_enqueues {facts : TickFacts} (hidle : world.Idle)
    (htick : tickTracked world = .ok (facts, next)) :
    Enqueues world.advanceTick next (facts.events.flatMap TickEvent.deaths) ∧ next.Idle := by
  unfold tickTracked at htick
  obtain ⟨⟨before, staged⟩, hclock, hexecute⟩ := bind_eq_ok_iff.mp htick
  have htransits := clockStage_transits False.elim hclock
  have hadvanced : world.advanceTick.Idle := hidle.congr rfl
  have hstill := htransits.idle hadvanced
  refine ⟨?_, hstill.congr (executionStage_combat hexecute)⟩
  refine (executionStage_induct (motive := fun events state ↦
    Enqueues world.advanceTick state (events.flatMap TickEvent.deaths))
    htransits.passed.enqueues ?_ hexecute).1
  intro _ _ events state after actor order event hstate _ _ hafter
  rw [List.flatMap_append, List.flatMap_singleton]
  exact hstate.trans (executeOrder_enqueues hafter)

/-! ### Coming and going -/

theorem spawn_enqueues {data : EntityMeta} {id : EntityId}
    (hspawn : world.spawn data = some (id, next)) :
    Enqueues world next [.spawned id] ∧ next.combat = world.combat := by
  simp only [World.spawn, Option.map_eq_some_iff, Prod.mk.injEq] at hspawn
  obtain ⟨minted, -, rfl, rfl⟩ := hspawn
  exact ⟨⟨rfl, rfl⟩, rfl⟩

theorem registerCreature_enqueues {spec : CreatureSpec} {id : EntityId}
    (hregister : registerCreature world spec = .ok (id, next)) :
    Enqueues world next [.spawned id] ∧ next.combat = world.combat := by
  obtain ⟨spawned, record, hspawn, rfl⟩ := registerCreature_frame hregister
  obtain ⟨hspawned, hcombat⟩ := spawn_enqueues hspawn
  exact ⟨⟨hspawned.tick, hspawned.queue⟩, hcombat⟩

theorem settleDespawn_acts {stripped : World} {prior : Option CombatState} {id : EntityId}
    (hidle : stripped.Idle) (hsettle : settleDespawn stripped prior id = .ok (facts, next)) :
    Acts stripped next [] facts ∧
      (stripped.combat.bind CombatState.active = none → facts.turnStarted = none) := by
  unfold settleDespawn at hsettle
  split_ifs at hsettle with hempty hactive
  · cases hsettle
    exact ⟨⟨Enqueues.of_eq rfl rfl, World.idle_none rfl, Or.inl rfl⟩, fun _ ↦ rfl⟩
  · have hturns : stripped.TakesTurns := by
      intro combat hcombat
      rw [hcombat, Option.bind_some] at hactive
      cases hmode : combat.mode with
      | turnBased => rfl
      | realTime => exact nomatch (hidle combat hcombat hmode).symm.trans hactive
    have htransits := advanceTracked_transits False.elim hsettle
    refine ⟨htransits.acts hturns (Enqueues.refl stripped), fun hnone ↦ ?_⟩
    exact nomatch hnone.symm.trans hactive
  · cases hsettle
    exact ⟨⟨Enqueues.refl next, hidle, Or.inl rfl⟩, fun _ ↦ rfl⟩

/-- A removal enqueues the entity that left, and takes one trailing transition. -/
theorem despawnTracked_acts {id : EntityId} {removed : Bool} (hidle : world.Idle)
    (hdespawn : despawnTracked world id = .ok ((removed, facts), next)) :
    Acts world next (if removed then [.despawned id] else []) facts := by
  unfold despawnTracked at hdespawn
  split at hdespawn
  · cases hdespawn
    exact ⟨Enqueues.refl world, hidle, Or.inl rfl⟩
  · next data entities _ =>
    obtain ⟨⟨transition, settled⟩, hsettle, hnext⟩ := bind_eq_ok_iff.mp hdespawn
    simp only [Result.ok.injEq, Prod.mk.injEq] at hnext
    obtain ⟨⟨rfl, hfacts⟩, rfl⟩ := hnext
    have hkept : (strip world entities id).combat = world.combat := rfl
    obtain ⟨hsettled, hturn⟩ := settleDespawn_acts (hidle.congr hkept) hsettle
    have hqueue : settled.events = world.events := hsettled.enqueues.queue
    have htick : settled.tick = world.tick := hsettled.enqueues.tick
    refine ⟨⟨htick, ?_⟩, hsettled.idle.congr rfl, ?_⟩
    · show settled.events.push settled.tick (.despawned id) = _
      rw [hqueue, htick]
      rfl
    · split at hfacts
      · next before combat hprior hcombat =>
        split_ifs at hfacts with hended
        · -- Only real-time play counts the alive, and there nobody holds the turn.
          simp only [priorRtAlive, hcombat, Option.bind_some, Option.ite_none_right_eq_some]
            at hprior
          refine Or.inl ?_
          rw [← hfacts]
          refine hturn ?_
          rw [hkept, hcombat, Option.bind_some]
          exact hidle combat hcombat hprior.1
        · rw [← hfacts]
          exact hsettled.single
      · rw [← hfacts]
        exact hsettled.single

theorem rollInitiative_enqueues {definition : CombatDefinition}
    {sources rolled : List (Pending × Source)}
    (hroll : rollInitiative world definition sources = .ok (next, rolled)) :
    Enqueues world next [] := by
  unfold rollInitiative at hroll
  split at hroll
  · cases hroll
    exact Enqueues.refl world
  · simp only [bind_ok_iff, pure_ok_iff, Prod.mk.injEq] at hroll
    obtain ⟨_, -, _, -, rfl, -⟩ := hroll
    exact Enqueues.of_eq rfl rfl

variable {mode : EncounterMode}

theorem publishMember_enqueues {definition : CombatDefinition} {entry : Pending × Source}
    (hpublish : publishMember mode definition world entry = .ok next) :
    ∃ minted : List EntityId, Enqueues world next (minted.map .spawned) := by
  unfold publishMember at hpublish
  split at hpublish
  · cases hpublish
    exact ⟨[], Enqueues.refl world⟩
  · simp only [bind_ok_iff, pure_ok_iff] at hpublish
    obtain ⟨record, -, entered, -, rfl⟩ := hpublish
    exact ⟨[], Enqueues.of_eq rfl rfl⟩
  · simp only [bind_ok_iff, pure_ok_iff, Result.expect_eq_ok_iff] at hpublish
    obtain ⟨⟨id, spawned⟩, hspawn, combatant, -, rfl⟩ := hpublish
    have hspawned := (spawn_enqueues hspawn).1
    exact ⟨[id], hspawned.tick, hspawned.queue⟩

theorem firstTurn_enqueues {first : Option EntityId}
    (hturn : firstTurn mode world = .ok (first, next)) :
    Enqueues world next [] ∧ (mode = .realTime → first = none) := by
  unfold firstTurn at hturn
  split at hturn
  · cases hturn
    exact ⟨Enqueues.refl world, fun _ ↦ rfl⟩
  · split at hturn
    · cases hturn
      exact ⟨Enqueues.refl world, nofun⟩
    · obtain ⟨_, -, hnext⟩ := bind_eq_ok_iff.mp hturn
      cases hnext
      exact ⟨Enqueues.of_eq rfl rfl, nofun⟩

theorem startEncounterInModeTracked_enqueues {spec : EncounterSpec} {facts : StartFacts}
    (hstart : startEncounterInModeTracked world spec mode = .ok (facts, next)) :
    (∃ minted : List EntityId, Enqueues world next (minted.map .spawned)) ∧ next.Idle := by
  simp only [startEncounterInModeTracked, bind_ok_iff, pure_ok_iff, Prod.mk.injEq] at hstart
  obtain ⟨prepared, -, sources, -, _, -, ⟨rolled, keyed⟩, hroll, published, hpublish,
    ⟨first, started⟩, hturn, -, rfl⟩ := hstart
  have hrolled := rollInitiative_enqueues hroll
  have hpublished : ∃ minted : List EntityId, Enqueues world published (minted.map .spawned) := by
    refine Result.foldlM_preserves
      (motive := fun state ↦ ∃ minted : List EntityId, Enqueues world state (minted.map .spawned))
      ?_ ⟨[], hrolled⟩ hpublish
    rintro entry - state after ⟨minted, hstate⟩ hafter
    obtain ⟨more, hmore⟩ := publishMember_enqueues hafter
    refine ⟨minted ++ more, ?_⟩
    rw [List.map_append]
    exact hstate.trans hmore
  obtain ⟨minted, hminted⟩ := hpublished
  obtain ⟨hfirst, hnone⟩ := firstTurn_enqueues hturn
  have hboth : Enqueues published started [] := ⟨hfirst.tick, hfirst.queue⟩
  have hall := hminted.quiet hboth
  exact ⟨⟨minted, hall.tick, hall.queue⟩, World.idle_some rfl hnone⟩

theorem foldl_release_enqueues (combat : CombatState) (entries : List (EntityId × Combatant))
    (world : World) : Enqueues world (entries.foldl (release combat) world) [] := by
  induction entries generalizing world with
  | nil => exact Enqueues.refl world
  | cons entry rest ih =>
    have hreleased : Enqueues world (release combat world entry) [] := by
      unfold release
      split
      · exact Enqueues.of_eq rfl rfl
      · exact Enqueues.of_eq rfl rfl
    exact hreleased.quiet (ih _)

theorem endEncounter_enqueues {summary : EncounterSummary}
    (hend : endEncounter world = .ok (summary, next)) : Enqueues world next [] ∧ next.Idle := by
  simp only [endEncounter, bind_ok_iff, pure_ok_iff, Prod.mk.injEq] at hend
  obtain ⟨combat, -, -, rfl⟩ := hend
  have hreleased := foldl_release_enqueues combat world.combatants.entries world
  exact ⟨⟨hreleased.tick, hreleased.queue⟩, World.idle_none rfl⟩

theorem requestMode_enqueues (hidle : world.Idle) (hrequest : requestMode world mode = .ok next) :
    Enqueues world next [] ∧ next.Idle := by
  simp only [requestMode, bind_ok_iff, pure_ok_iff, Result.okOr_eq_ok_iff] at hrequest
  obtain ⟨combat, hcombat, _, -, rfl⟩ := hrequest
  exact ⟨Enqueues.of_eq rfl rfl, hidle.keeps hcombat rfl rfl rfl⟩

end Crpg.Sim
