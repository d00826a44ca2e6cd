import Mathlib.Order.Fin.Basic
import Crpg.Lib.BTreeMap
import Crpg.Net.Protocol

/-!
# The interest projection

`crpg-net/src/interest.rs`. A view turns the rows a host authorizes for one viewer into delta
operations or a snapshot body. It owns the map from entities to the replica ids it has disclosed,
the health and turn it last rendered, and a cursor. This module embeds `validate`, `plan_mint`,
`visible_rows`, `rendered_rows`, `rendered_health`, `rendered_turn` and the two projections.

Indexing a map without a binding is a panic in the source and `none` here: a projection returns
`some` of its result.
-/

set_option autoImplicit false

namespace Crpg.Net

open Crpg.Core Crpg.Lib

/-! ### Inputs and results -/

structure EntityKey where
  area : Ulid
  entity : EntityId
deriving DecidableEq

/-- Keys are ordered by area, then by entity. -/
instance : LinearOrder EntityKey :=
  LinearOrder.lift' (fun key ↦ toLex (key.area, key.entity)) fun first second h ↦ by
    have hpair : (first.area, first.entity) = (second.area, second.entity) := toLex.injective h
    obtain ⟨area, entity⟩ := first
    obtain ⟨area, entity⟩ := second
    simpa using hpair

/-- The fields of a row a viewer may see. -/
structure FieldMask where
  presence : Bool
  health : Bool
deriving DecidableEq

/-- One authorized row. -/
structure EntityFact where
  key : EntityKey
  fields : FieldMask
  health : Option HealthFact
  resendHealth : Bool
deriving DecidableEq

structure TurnState where
  area : Ulid
  active : Option EntityId
  round : ℕ
deriving DecidableEq

/-- What the host supplies for one projection. -/
structure ViewerContext where
  epoch : SessionEpoch
  tick : ℕ
  interest : Ulid
  facts : List EntityFact
  despawned : List EntityKey
  turn : Option TurnState
  turnGranted : Bool
  resendTurn : Bool
deriving DecidableEq

structure ViewCursor where
  tick : ℕ
  revision : ℕ
deriving DecidableEq

structure StateProjection where
  ops : List DeltaOp
  enters : ℕ
  cursor : ViewCursor
deriving DecidableEq

structure SnapshotProjection where
  body : SnapshotBody
  cursor : ViewCursor
deriving DecidableEq

/-- Why a projection is refused. -/
inductive InterestError
  | wrongEpoch
  | tooManyFacts
  | duplicateFact
  | idExhausted
deriving DecidableEq

/-- A disclosed entity: its replica id and the health last rendered for it. -/
structure LiveEntry where
  net : NetId
  lastHealth : Option HealthFact
deriving DecidableEq

structure InterestView where
  epoch : SessionEpoch
  nextId : ℕ
  live : BTreeMap EntityKey LiveEntry
  index : BTreeMap NetId EntityKey
  lastTurn : Option TurnFact
  cursor : ViewCursor

/-! ### Rendering -/

def visibleRows (context : ViewerContext) : BTreeMap EntityKey EntityFact :=
  .ofList ((context.facts.filter fun fact ↦
    fact.key.area = context.interest && fact.fields.presence).map fun fact ↦ (fact.key, fact))

def identifyRows (ids : BTreeMap EntityKey NetId) :
    List (EntityKey × EntityFact) → Option (List (NetId × EntityFact))
  | [] => some []
  | (key, fact) :: rest =>
    match ids.get? key, identifyRows ids rest with
    | some net, some rows => some ((net, fact) :: rows)
    | _, _ => none

/-- `sort_by_key` on a replica id. -/
def sortByNet {α : Type*} (net : α → NetId) (rows : List α) : List α :=
  rows.mergeSort fun first second ↦ net first ≤ net second

def renderedRows (visible : BTreeMap EntityKey EntityFact) (ids : BTreeMap EntityKey NetId) :
    Option (List (NetId × EntityFact)) :=
  (identifyRows ids visible.entries).map (sortByNet Prod.fst)

/-- The health a row discloses. -/
def renderedHealth (fact : EntityFact) : Option HealthFact :=
  if fact.fields.health then fact.health else none

def renderedTurn (context : ViewerContext) (ids : BTreeMap EntityKey NetId)
    (visible : BTreeMap EntityKey EntityFact) : Option TurnFact :=
  if !context.turnGranted then none
  else
    context.turn.bind fun turn ↦
      if turn.area ≠ context.interest then none
      else
        some ⟨turn.active.bind fun entity ↦
            if visible.contains ⟨turn.area, entity⟩ then ids.get? ⟨turn.area, entity⟩ else none,
          turn.round⟩

namespace InterestView

/-- A view that has disclosed nothing. -/
def new (epoch : SessionEpoch) : InterestView := ⟨epoch, 1, .empty, .empty, none, ⟨0, 0⟩⟩

def netId (view : InterestView) (key : EntityKey) : Option NetId :=
  (view.live.get? key).map LiveEntry.net

/-- The loop of `validate` over the facts, with the keys seen so far. -/
def checkFacts (seen : List EntityKey) : List EntityFact → Except InterestError Unit
  | [] => .ok ()
  | fact :: rest =>
    if fact.key ∈ seen then .error .duplicateFact else checkFacts (fact.key :: seen) rest

def validate (view : InterestView) (context : ViewerContext) : Except InterestError Unit :=
  if context.epoch ≠ view.epoch then .error .wrongEpoch
  else if maxVisibleEntities < context.facts.length ∨
      maxVisibleEntities < context.despawned.length then
    .error .tooManyFacts
  else checkFacts [] context.facts

/-- The loop of `plan_mint`: consecutive ids for entering keys, and the next id after them. -/
def mint (next : ℕ) : List EntityKey → Except InterestError (List (EntityKey × NetId) × ℕ)
  | [] => .ok ([], next)
  | key :: rest =>
    if hnext : 0 < next then
      match mint (next + 1) rest with
      | .error refusal => .error refusal
      | .ok (minted, after) => .ok ((key, ⟨next, hnext⟩) :: minted, after)
    else .error .idExhausted

/-- Plans the ids of entering keys, refusing when they would run out. -/
def planMint (view : InterestView) (entering : List EntityKey) :
    Except InterestError (List (EntityKey × NetId) × ℕ) :=
  if 2 ^ 64 - 1 - view.nextId < entering.length then .error .idExhausted
  else mint view.nextId entering

def resolvedIds (view : InterestView) (minted : List (EntityKey × NetId)) :
    BTreeMap EntityKey NetId :=
  minted.foldl (fun ids pair ↦ ids.insert pair.1 pair.2) (view.live.mapValues fun _ entry ↦ entry.net)

def entering (view : InterestView) (visible : BTreeMap EntityKey EntityFact) : List EntityKey :=
  visible.keys.filter fun key ↦ !view.live.contains key

def hidden (view : InterestView) (visible : BTreeMap EntityKey EntityFact) :
    List (NetId × EntityKey) :=
  (view.live.entries.filter fun entry ↦ !visible.contains entry.1).map
    fun entry ↦ (entry.2.net, entry.1)

def forget (view : InterestView) (removed : List (NetId × EntityKey)) : InterestView :=
  removed.foldl (fun view pair ↦
    match view.live.get? pair.2 with
    | some entry =>
      { view with live := view.live.erase pair.2, index := view.index.erase entry.net }
    | none => view) view

def enter (view : InterestView) (minted : List (EntityKey × NetId)) : InterestView :=
  minted.foldl (fun view pair ↦
    { view with
      live := view.live.insert pair.1 ⟨pair.2, none⟩
      index := view.index.insert pair.2 pair.1 }) view

def recordHealth (view : InterestView) (rows : List (NetId × EntityFact)) : InterestView :=
  rows.foldl (fun view row ↦
    match view.live.get? row.2.key with
    | some entry =>
      { view with
        live := view.live.insert row.2.key { entry with lastHealth := renderedHealth row.2 } }
    | none => view) view

def advanceCursor (view : InterestView) (tick : ℕ) : InterestView :=
  { view with cursor := ⟨tick, min (view.cursor.revision + 1) (2 ^ 64 - 1)⟩ }

/-- The health operation of a row, if its health changed or is resent. -/
def healthOp (view : InterestView) (row : NetId × EntityFact) : Option DeltaOp :=
  let known := (view.live.get? row.2.key).bind LiveEntry.lastHealth
  match renderedHealth row.2 with
  | none => none
  | some health =>
    if some health ≠ known ∨ row.2.resendHealth then
      some (.health row.1 health.health health.maxHealth health.dead)
    else none

def turnOps (view : InterestView) (context : ViewerContext) (turn : Option TurnFact) :
    List DeltaOp :=
  match turn with
  | none => []
  | some fact =>
    if view.lastTurn ≠ some fact ∨ context.resendTurn then [.turn fact.active fact.round] else []

/-- The operation of an entity that left the view. -/
def leaveOp (context : ViewerContext) (pair : NetId × EntityKey) : DeltaOp :=
  if pair.2 ∈ context.despawned then .despawned pair.1 else .entityLeave pair.1

/-- Projects a context to delta operations: entries, health, turn, then leaves. -/
def projectDelta (view : InterestView) (context : ViewerContext) :
    Option (Except InterestError (StateProjection × InterestView)) :=
  match view.validate context with
  | .error refusal => some (.error refusal)
  | .ok () =>
    let visible := visibleRows context
    match view.planMint (view.entering visible) with
    | .error refusal => some (.error refusal)
    | .ok (minted, nextId) =>
      let ids := view.resolvedIds minted
      (renderedRows visible ids).map fun rows ↦
        let enters := sortByNet Prod.snd minted
        let turn := renderedTurn context ids visible
        let removed := sortByNet Prod.fst (view.hidden visible)
        let ops := enters.map (fun pair ↦ DeltaOp.entityEnter pair.2) ++
          rows.filterMap view.healthOp ++ view.turnOps context turn ++
          removed.map (leaveOp context)
        let moved := ((view.forget removed).enter enters).recordHealth rows
        let settled := { moved with lastTurn := turn, nextId := nextId }
        let final := if ops.isEmpty then settled else settled.advanceCursor context.tick
        .ok (⟨ops, enters.length, final.cursor⟩, final)

def projectSnapshot (view : InterestView) (context : ViewerContext) :
    Option (Except InterestError (SnapshotProjection × InterestView)) :=
  match view.validate context with
  | .error refusal => some (.error refusal)
  | .ok () =>
    let visible := visibleRows context
    match view.planMint (view.entering visible) with
    | .error refusal => some (.error refusal)
    | .ok (minted, nextId) =>
      let ids := view.resolvedIds minted
      (renderedRows visible ids).map fun rows ↦
        let turn := renderedTurn context ids visible
        let body : SnapshotBody :=
          ⟨rows.map fun row ↦ ⟨row.1, renderedHealth row.2⟩, turn⟩
        let moved := ((view.forget (view.hidden visible)).enter minted).recordHealth rows
        let settled := { moved with lastTurn := turn, nextId := nextId }
        let final := settled.advanceCursor context.tick
        .ok (⟨body, final.cursor⟩, final)

end InterestView

end Crpg.Net
