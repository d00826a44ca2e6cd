import Crpg.Sim.Start

/-!
# Area transfer and reachable worlds

`crpg-sim/src/area.rs`: the explicit move of one entity between two bound worlds. `Reachable` closes
the empty worlds under every operation of the simulation; a transfer takes two reachable worlds to
two reachable worlds. An operation that returns an error leaves the world as it was, so only the
returning calls are steps.
-/

set_option autoImplicit false

namespace Crpg.Sim

open Crpg.Core Crpg.Lib Crpg.Rules Crpg.Data

/-- Every transfer failure of two bare worlds. -/
inductive AreaError
  | unboundSource
  | unboundDestination
  | sameArea (area : Ulid)
  | absentEntity (entity : EntityId)
  | combatParticipant (entity : EntityId)
  | scheduledEntity (entity : EntityId)
  | invalidTransform (entity : EntityId)
  | placementInUse (placement : Ulid)
deriving DecidableEq

/-- Checks the transfer preconditions in order. -/
def transferPreflight (source destination : World) (entity : EntityId) : Result AreaError Unit := do
  let origin ← Result.okOr .unboundSource source.area
  let goal ← Result.okOr .unboundDestination destination.area
  Result.failIf (origin = goal) (.sameArea origin)
  Result.failIf (source.contains entity = false) (.absentEntity entity)
  Result.failIf (source.combatants.contains entity = true) (.combatParticipant entity)
  Result.failIf (source.timeline.contains entity = true) (.scheduledEntity entity)
  Result.failIf ((source.transforms.get? entity).any fun transform ↦ !transform.finite)
    (.invalidTransform entity)
  match source.creatures.get? entity with
  | some record =>
    Result.failIf (placementHeld destination record.placement = true)
      (.placementInUse record.placement)
  | none => pure ()

def insertSome {T : Type*} (store : ComponentStore T) (id : EntityId) : Option T → ComponentStore T
  | some value => store.insert id value
  | none => store

/-- Moves one noncombat, unscheduled entity between two bound worlds: its new identity and the two
worlds. -/
def transferEntity (source destination : World) (entity : EntityId) :
    Result AreaError (EntityId × World × World) := do
  transferPreflight source destination entity
  let data ← Result.expect (source.entities.get entity)
  let removed ← Result.unwrap (despawnTracked source entity)
  let moved ← Result.expect (destination.spawn data)
  pure (moved.1, removed.2, { moved.2 with
    transforms := insertSome moved.2.transforms moved.1 (source.transforms.get? entity)
    creatures := insertSome moved.2.creatures moved.1 (source.creatures.get? entity) })

theorem transferEntity_cases {source destination left entered : World} {entity moved : EntityId}
    (htransfer : transferEntity source destination entity = .ok (moved, left, entered)) :
    transferPreflight source destination entity = .ok () ∧
    (∃ facts, despawnTracked source entity = .ok (facts, left)) ∧
    ∃ data spawned, destination.spawn data = some (moved, spawned) ∧ entered = { spawned with
      transforms := insertSome spawned.transforms moved (source.transforms.get? entity)
      creatures := insertSome spawned.creatures moved (source.creatures.get? entity) } := by
  simp only [transferEntity, Result.bind_ok_iff, Result.pure_ok_iff, Result.expect_eq_ok_iff,
    Result.unwrap_eq_ok_iff, Prod.mk.injEq] at htransfer
  obtain ⟨⟨⟩, hpreflight, data, -, ⟨facts, _⟩, hremoved, ⟨_, spawned⟩, hspawn, rfl, rfl, rfl⟩ :=
    htransfer
  exact ⟨hpreflight, ⟨facts, hremoved⟩, data, spawned, hspawn, rfl⟩

/-- The worlds the operations of the simulation reach from empty ones, when the encounters that are
started satisfy a condition. The event queue is not drained between them: it keeps what the whole
run enqueued, which a history drains after each operation. -/
inductive ReachableBy (starts : EncounterSpec → Prop) : World → Prop
  | new (seed : UInt64) : ReachableBy starts (World.new seed)
  | newInArea (seed : UInt64) (area : Ulid) : ReachableBy starts (World.newInArea seed area)
  | spawn {world next : World} {data : EntityMeta} {id : EntityId}
      (before : ReachableBy starts world) (returned : world.spawn data = some (id, next)) :
      ReachableBy starts next
  | despawn {world next : World} {id : EntityId} {facts : Bool × TransitionFacts}
      (before : ReachableBy starts world)
      (returned : despawnTracked world id = .ok (facts, next)) : ReachableBy starts next
  | register {world next : World} {spec : CreatureSpec} {id : EntityId}
      (before : ReachableBy starts world)
      (returned : registerCreature world spec = .ok (id, next)) : ReachableBy starts next
  | start {world next : World} {spec : EncounterSpec} {mode : EncounterMode} {facts : StartFacts}
      (before : ReachableBy starts world)
      (returned : startEncounterInModeTracked world spec mode = .ok (facts, next))
      (allowed : starts spec) : ReachableBy starts next
  | perform {world next : World} {action : CombatAction}
      {facts : Option ActionOutcome × TransitionFacts} (before : ReachableBy starts world)
      (returned : performActionTracked world action = .ok (facts, next)) : ReachableBy starts next
  | requestMode {world next : World} {mode : EncounterMode} (before : ReachableBy starts world)
      (returned : requestMode world mode = .ok next) : ReachableBy starts next
  | tick {world next : World} {facts : TickFacts} (before : ReachableBy starts world)
      (returned : tickTracked world = .ok (facts, next)) : ReachableBy starts next
  | transferOut {source destination left entered : World} {entity moved : EntityId}
      (sourceBefore : ReachableBy starts source) (destinationBefore : ReachableBy starts destination)
      (returned : transferEntity source destination entity = .ok (moved, left, entered)) :
      ReachableBy starts left
  | transferIn {source destination left entered : World} {entity moved : EntityId}
      (sourceBefore : ReachableBy starts source) (destinationBefore : ReachableBy starts destination)
      (returned : transferEntity source destination entity = .ok (moved, left, entered)) :
      ReachableBy starts entered
  | endEncounter {world next : World} {summary : EncounterSummary}
      (before : ReachableBy starts world) (returned : endEncounter world = .ok (summary, next)) :
      ReachableBy starts next

/-- The worlds the operations of the simulation reach. -/
abbrev Reachable : World → Prop := ReachableBy fun _ ↦ True

theorem ReachableBy.reachable {starts : EncounterSpec → Prop} {world : World}
    (hreachable : ReachableBy starts world) : Reachable world := by
  induction hreachable with
  | new seed => exact .new seed
  | newInArea seed area => exact .newInArea seed area
  | spawn _ returned ih => exact .spawn ih returned
  | despawn _ returned ih => exact .despawn ih returned
  | register _ returned ih => exact .register ih returned
  | start _ returned _ ih => exact .start ih returned trivial
  | perform _ returned ih => exact .perform ih returned
  | requestMode _ returned ih => exact .requestMode ih returned
  | tick _ returned ih => exact .tick ih returned
  | transferOut _ _ returned ihSource ihDestination =>
    exact .transferOut ihSource ihDestination returned
  | transferIn _ _ returned ihSource ihDestination =>
    exact .transferIn ihSource ihDestination returned
  | endEncounter _ returned ih => exact .endEncounter ih returned

end Crpg.Sim
