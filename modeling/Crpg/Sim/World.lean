import Crpg.Core.Event
import Crpg.Sim.Definition
import Crpg.Sim.Timeline

/-!
# The world

`crpg-sim/src/world.rs`, `store.rs` and `transform.rs`: one area's simulation state, the component
stores keyed by entity, and the operations that mint and look up entities. A component store is an
insertion-ordered map. Positions and velocities are 32-bit floats by their bits, of which the
simulation only asks whether they are finite.
-/

set_option autoImplicit false

namespace Crpg.Sim

open Crpg.Core Crpg.Lib Crpg.Rules Crpg.Data

/-- Per-entity metadata: nothing yet. -/
structure EntityMeta where
deriving DecidableEq

/-- Where an entity is and where it is going, by the bits of its floats. -/
structure Transform where
  position : UInt32 × UInt32 × UInt32
  velocity : UInt32 × UInt32 × UInt32
deriving DecidableEq

/-- `f32::is_finite`: the exponent bits are not all ones. -/
def isFinite (bits : UInt32) : Bool := (bits >>> 23) &&& 0xff ≠ 0xff

def Transform.finite (transform : Transform) : Bool :=
  isFinite transform.position.1 && isFinite transform.position.2.1 &&
    isFinite transform.position.2.2 && isFinite transform.velocity.1 &&
    isFinite transform.velocity.2.1 && isFinite transform.velocity.2.2

/-- Storage for one component type, keyed by entity, in insertion order. -/
abbrev ComponentStore (T : Type*) := IndexMap EntityId T

/-- One loaded area's simulation state. -/
structure World where
  entities : GenerationalArena EntityMeta
  transforms : ComponentStore Transform
  timeline : Timeline
  events : EventQueue SimEvent
  rng : DeterministicRng
  tick : ℕ
  combatants : ComponentStore Combatant
  combat : Option CombatState
  interners : Interners
  area : Option Ulid
  creatures : ComponentStore CreatureState
deriving DecidableEq

namespace World

def new (seed : UInt64) : World where
  entities := .new
  transforms := .empty
  timeline := .new
  events := .new
  rng := .fromSeed seed
  tick := 0
  combatants := .empty
  combat := none
  interners := .new
  area := none
  creatures := .empty

def newInArea (seed : UInt64) (area : Ulid) : World := { new seed with area := some area }

/-- Whether an id names a live entity. -/
def contains (world : World) (id : EntityId) : Bool := world.entities.contains id

/-- Mints an entity and enqueues `Spawned`; `none` is the panic of a full arena. -/
def spawn (world : World) (data : EntityMeta) : Option (EntityId × World) :=
  (world.entities.insert data).map fun minted ↦
    (minted.1, { world with
      entities := minted.2
      events := world.events.push world.tick (.spawned minted.1) })

def advanceTick (world : World) : World := { world with tick := saturatingAdd u64Max world.tick 1 }

def aliveInStore (world : World) : List EntityId :=
  (world.combatants.entries.filter fun entry ↦ !entry.2.dead).map Prod.fst

/-- `rt_alive`: the number of combatants that are not dead. -/
def rtAlive (world : World) : ℕ := world.aliveInStore.length

/-- `alive_ids`: the ids of every alive combatant in ascending order. -/
def aliveIds (world : World) : List EntityId := world.aliveInStore.insertionSort (· ≤ ·)

def deadIds (world : World) : List EntityId :=
  (world.combatants.entries.filter fun entry ↦ entry.2.dead).map Prod.fst

/-- Rewrites one combatant, if it is there. -/
def modifyCombatant (world : World) (id : EntityId) (transform : Combatant → Combatant) : World :=
  { world with combatants := world.combatants.modify id transform }

end World

end Crpg.Sim
