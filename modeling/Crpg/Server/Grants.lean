import Crpg.Lib.BinarySearch
import Crpg.Net.CodecV2
import Crpg.Server.Capture

/-!
# Grants and views

The disclosure half of `crpg-server/src/host.rs`: what a peer may act as and learn, the map from
live entities to its replica ids, and the view that both give of the world. Everything a peer is
sent about the world is computed here, from the grants, the map and the world alone.
-/

set_option autoImplicit false

namespace Crpg.Server

open Crpg.Core Crpg.Lib Crpg.Rules Crpg.Sim Crpg.Net

/-! ### Failures -/

/-- Every failure of the host's interface. -/
inductive HostError
  | closed
  | timeRegression
  | unknownPeer
  | serverBusy
  | queueFull
  | invalidControl
  | invalidGrants
  | pendingHistory
  | counterExhausted
  | invalidPageLimit (limit : ℕ)
  | staleCaptureCursor (requested acknowledged : ℕ)
  | futureCaptureCursor (requested last : ℕ)
  | futureDeliveryCursor (requested last : ℕ)
  | invariant (what : String)
deriving DecidableEq

/-! ### Grants -/

/-- `MAX_MAPPED_PER_PEER`, `MAX_CONTROLLED_PER_PEER` and `MAX_GRANT_IDENTITIES` alias one bound. -/
def maxGrantIdentities : ℕ := maxVisibleEntities

/-- What one peer may learn of one entity. -/
structure EntityDisclosure where
  entity : EntityId
  present : Bool
  health : Bool
  spawn : Bool
  despawn : Bool
  died : Bool
  actionActor : Bool
  actionTarget : Bool
  actionOutcome : Bool
  actionDamage : Bool
  turnStart : Bool
deriving DecidableEq

/-- Everything one peer may learn. -/
structure DisclosureGrants where
  entities : List EntityDisclosure
  abilities : List Ulid
  encounters : List Ulid
  turnRound : Bool
  encounterEnd : Bool
  turnState : Bool
deriving DecidableEq

def anyAdjacentEqual {α : Type*} [DecidableEq α] : List α → Bool
  | first :: second :: rest => first = second || anyAdjacentEqual (second :: rest)
  | _ => false

/-- The controlled entities, bounded before they are sorted and deduplicated. -/
def normalizeControl (actors : List EntityId) : Result HostError (List EntityId) :=
  if actors.length > maxGrantIdentities then .err .invalidControl else .ok (sortDedup actors)

/-- Grants with each vector bounded, sorted and free of duplicates. -/
def normalizeGrants (grants : DisclosureGrants) : Result HostError DisclosureGrants := do
  Result.failIf (grants.entities.length > maxGrantIdentities ∨
    grants.abilities.length > maxGrantIdentities ∨
    grants.encounters.length > maxGrantIdentities) .invalidGrants
  let entities := grants.entities.insertionSort fun first second ↦ first.entity ≤ second.entity
  let abilities := grants.abilities.insertionSort (· ≤ ·)
  let encounters := grants.encounters.insertionSort (· ≤ ·)
  Result.failIf (anyAdjacentEqual (entities.map EntityDisclosure.entity) = true ∨
    anyAdjacentEqual abilities = true ∨ anyAdjacentEqual encounters = true) .invalidGrants
  pure { grants with entities := entities, abilities := abilities, encounters := encounters }

def disclosureFlags (entry : EntityDisclosure) : List Bool :=
  [entry.present, entry.health, entry.spawn, entry.despawn, entry.died, entry.actionActor,
    entry.actionTarget, entry.actionOutcome, entry.actionDamage, entry.turnStart]

def lookup (grants : DisclosureGrants) (entity : EntityId) : Option EntityDisclosure :=
  (binarySearch EntityDisclosure.entity grants.entities entity).bind fun index ↦
    grants.entities[index]?

def sortedContains {α : Type*} [LinearOrder α] (items : List α) (item : α) : Bool :=
  (binarySearch id items item).isSome

/-- Whether new grants remove anything the old ones permitted. -/
def isNarrowing (old new : DisclosureGrants) : Bool :=
  (old.entities.any fun entry ↦
    let after := (lookup new entry.entity).elim (List.replicate 10 false) disclosureFlags
    ((disclosureFlags entry).zip after).any fun pair ↦ pair.1 && !pair.2) ||
  (old.abilities.any fun id ↦ !sortedContains new.abilities id) ||
  (old.encounters.any fun id ↦ !sortedContains new.encounters id) ||
  (old.turnRound && !new.turnRound) || (old.encounterEnd && !new.encounterEnd) ||
  (old.turnState && !new.turnState)

/-! ### The map of a session -/

/-- The live entities of a peer with its replica ids. -/
abbrev EntityMap := BTreeMap EntityId NetId

/-- One grant of `plan_map`: a live present entity keeps its id or takes the next one. -/
def planEntry (current : EntityMap) (world : World) (state : EntityMap × ℕ)
    (entry : EntityDisclosure) : Result HostError (EntityMap × ℕ) :=
  if entry.present = false ∨ world.contains entry.entity = false then .ok state
  else match current.get? entry.entity with
    | some net => .ok (state.1.insert entry.entity net, state.2)
    | none => do
      Result.failIf (state.2 = u64Max) .counterExhausted
      let net ← Result.okOr (.invariant "zero NetId") (nonzero state.2)
      pure (state.1.insert entry.entity net, state.2 + 1)

/-- The map for grants: kept ids stay, newly present live entities take the next ids in ascending
order, revoked ids retire. -/
def planMap (current : EntityMap) (nextNet : ℕ) (grants : DisclosureGrants) (world : World) :
    Result HostError (EntityMap × ℕ) :=
  Result.foldlM (planEntry current world) (BTreeMap.empty, nextNet) grants.entities

/-! ### Operations of the wire -/

def healthOp (entry : CapturedHealth) : DeltaOpV2 :=
  .legacy (.health entry.entity entry.health entry.maxHealth entry.dead)

def turnOp (turn : CapturedTurn) : DeltaOpV2 := .legacy (.turn turn.active turn.round)

/-- An entity that becomes visible. -/
def enterOp (net : NetId) : DeltaOpV2 := .legacy (.entityEnter net)

/-! ### Views -/

structure PeerView where
  grants : DisclosureGrants
  map : EntityMap

namespace PeerView

def netIf (view : PeerView) (entity : EntityId) (flag : EntityDisclosure → Bool) : Option NetId :=
  (lookup view.grants entity).bind fun grant ↦
    if grant.present && flag grant then view.map.get? entity else none

def grant (view : PeerView) (entity : EntityId) : Option EntityDisclosure :=
  lookup view.grants entity

def discloses (view : PeerView) (entity : EntityId) (flag : EntityDisclosure → Bool) : Bool :=
  (view.grant entity).any fun grant ↦ grant.present && flag grant

def both (view : PeerView) (actor target : EntityId) (flag : EntityDisclosure → Bool) : Bool :=
  (view.grant actor).any flag && (view.grant target).any flag

def health (view : PeerView) (world : World) (entity : EntityId) : Option CapturedHealth :=
  (view.netIf entity EntityDisclosure.health).bind fun net ↦
    (world.combatants.get? entity).map fun combatant ↦
      ⟨net, combatant.health, combatant.maxHealth, combatant.dead⟩

/-- Health entries in ascending order of replica ids. -/
def sortHealth (entries : List CapturedHealth) : List CapturedHealth :=
  entries.insertionSort fun first second ↦ first.entity ≤ second.entity

/-- The turn of an encounter; an active entity without a replica id reads as none. -/
def turn (view : PeerView) (world : World) : Option CapturedTurn :=
  if view.grants.turnState then
    world.combat.map fun combat ↦ ⟨combat.active.bind view.map.get?, combat.round⟩
  else none

/-- The mapped entities in ascending order of replica ids. -/
def mapped (view : PeerView) : List (NetId × EntityId) :=
  (view.map.entries.map fun entry ↦ (entry.2, entry.1)).insertionSort fun first second ↦
    first.1 < second.1 ∨ (first.1 = second.1 ∧ first.2 ≤ second.2)

def fullStateOps (view : PeerView) (world : World) : List DeltaOpV2 :=
  view.mapped.map (fun entry ↦ enterOp entry.1) ++
    (view.mapped.filterMap fun entry ↦ view.health world entry.2).map healthOp ++
    (view.turn world).toList.map turnOp

/-- The body of a snapshot: one row for each mapped entity and the permitted turn. -/
def snapshotBody (view : PeerView) (world : World) : SnapshotBody where
  entities := view.mapped.map fun entry ↦
    ⟨entry.1, (view.health world entry.2).map fun found ↦
      ⟨found.health, found.maxHealth, found.dead⟩⟩
  turn := (view.turn world).map fun turn ↦ ⟨turn.active, turn.round⟩

end PeerView

/-- The operations a widening adds: newly mapped entities, health that became visible, and the turn
when it became visible. -/
def wideningOps (world : World) (old new : PeerView) : List DeltaOpV2 :=
  let entered := ((new.map.entries.filter fun entry ↦ !old.map.contains entry.1).map
    Prod.snd).insertionSort (· ≤ ·)
  let health := PeerView.sortHealth ((new.map.keys.filter fun entity ↦
    (old.health world entity).isNone).filterMap (new.health world))
  entered.map enterOp ++ health.map healthOp ++
    if (old.turn world).isNone then (new.turn world).toList.map turnOp else []

end Crpg.Server
