import Crpg.Lib.BinarySearch
import Crpg.Net.Reassembly

/-!
# The client replica

`crpg-net/src/replica.rs`. A replica applies decoded delta frames and published snapshots in strict
order. It keeps the live rows sorted by id, one turn fact, the next event sequence it expects and
the largest id it ever stored, and refuses every frame that breaks the wire rules, leaving itself
unchanged.

The rows are a list and lookups are binary searches. `ReplicaWorld.WellFormed` is what makes them
lookups: the rows ascend strictly and no id lies above the high-water mark. `row?` reads the rows
as a partial map, and one lemma for each operation says when it is accepted and what the map is
afterwards (`applyLegacy_entityEnter`, `applyLegacy_leave`, `applyLegacy_health`), so that no later
proof looks at list positions.
-/

set_option autoImplicit false

namespace Crpg.Net

open Crpg.Core Crpg.Lib

/-- The most live rows a replica holds, while one projection's entries precede its leaves. -/
def maxReplicaEntities : ℕ := 2 * maxVisibleEntities

/-- One live row. -/
structure ReplicaEntity where
  netId : NetId
  health : Option HealthFact
deriving DecidableEq

/-- Why a replica refuses a frame or a snapshot. -/
inductive ReplicaError
  | wrongLane (got : ℕ)
  | tooManyOps (got : ℕ)
  | eventSeq (expected got : ℕ)
  | unknownEntity (entity : NetId)
  | duplicateEntity (entity : NetId)
  | reusedEntityId (entity : NetId)
  | tooManyEntities
  | wrongEpoch
  | snapshotOrder (entity : NetId)
  | snapshotCursor (min got : ℕ)
deriving DecidableEq

structure ReplicaWorld where
  epoch : SessionEpoch
  entities : List ReplicaEntity
  turn : Option TurnFact
  nextEventSeq : ℕ
  serverTick : ℕ
  highWater : ℕ
deriving DecidableEq

namespace ReplicaWorld

/-! ### The operations -/

def new (epoch : SessionEpoch) : ReplicaWorld := ⟨epoch, [], none, 1, 0, 0⟩

/-- The position of a row. -/
def indexOf (replica : ReplicaWorld) (netId : NetId) : Option ℕ :=
  binarySearch ReplicaEntity.netId replica.entities netId

def entity (replica : ReplicaWorld) (netId : NetId) : Option ReplicaEntity :=
  (replica.indexOf netId).bind fun index ↦ replica.entities[index]?

/-- Refuses an id that has no row. -/
def requireLive (replica : ReplicaWorld) (netId : NetId) : Except ReplicaError ReplicaWorld :=
  if (replica.indexOf netId).isSome then .ok replica else .error (.unknownEntity netId)

/-- Applies an operation of the first wire. -/
def applyLegacy (replica : ReplicaWorld) : DeltaOp → Except ReplicaError ReplicaWorld
  | .entityEnter entity =>
    if (replica.indexOf entity).isSome then .error (.duplicateEntity entity)
    else if (entity : ℕ) ≤ replica.highWater then .error (.reusedEntityId entity)
    else if maxReplicaEntities ≤ replica.entities.length then .error .tooManyEntities
    else
      .ok { replica with
        entities := replica.entities ++ [⟨entity, none⟩]
        highWater := entity }
  | .entityLeave entity | .despawned entity =>
    match replica.indexOf entity with
    | none => .error (.unknownEntity entity)
    | some index => .ok { replica with entities := replica.entities.eraseIdx index }
  | .spawned entity | .died entity => replica.requireLive entity
  | .health entity health maxHealth dead =>
    match replica.indexOf entity with
    | none => .error (.unknownEntity entity)
    | some index =>
      .ok { replica with
        entities := replica.entities.modify index fun row ↦
          { row with health := some ⟨health, maxHealth, dead⟩ } }
  | .turn active round =>
    match active with
    | none => .ok { replica with turn := some ⟨none, round⟩ }
    | some netId =>
      match replica.requireLive netId with
      | .error refusal => .error refusal
      | .ok _ => .ok { replica with turn := some ⟨some netId, round⟩ }
  | .receipt epoch _ _ _ _ =>
    if epoch ≠ replica.epoch then .error .wrongEpoch else .ok replica

/-- Applies an operation of the second wire. -/
def applyOp (replica : ReplicaWorld) : DeltaOpV2 → Except ReplicaError ReplicaWorld
  | .legacy op => replica.applyLegacy op
  | .actionResolved actor target _ _ _ =>
    match replica.requireLive actor with
    | .error refusal => .error refusal
    | .ok _ => replica.requireLive target
  | .turnStarted actor _ => replica.requireLive actor
  | .encounterEnded _ _ => .ok replica

/-- Applies operations in order, stopping at the first refusal. -/
def applyOps (replica : ReplicaWorld) : List DeltaOpV2 → Except ReplicaError ReplicaWorld
  | [] => .ok replica
  | op :: ops =>
    match replica.applyOp op with
    | .error refusal => .error refusal
    | .ok next => next.applyOps ops

/-- Applies a frame: on a working copy, committed only when every operation is accepted. -/
def applyDelta (replica : ReplicaWorld) (frame : DeltaFrameV2) : Except ReplicaError ReplicaWorld :=
  if frame.lane ≠ laneCombat then .error (.wrongLane frame.lane)
  else if maxDeltaOps < frame.ops.length then .error (.tooManyOps frame.ops.length)
  else if frame.eventSeq ≠ replica.nextEventSeq ∨ seqLast < frame.eventSeq then
    .error (.eventSeq replica.nextEventSeq frame.eventSeq)
  else
    match replica.applyOps frame.ops with
    | .error refusal => .error refusal
    | .ok working =>
      .ok { working with nextEventSeq := frame.eventSeq + 1, serverTick := frame.serverTick }

/-- The check of the rows of a snapshot after a row with id `previous`: ascending ids, none of them
retired. -/
def checkRows (replica : ReplicaWorld) (previous : Option NetId) :
    List SnapshotEntity → Except ReplicaError Unit
  | [] => .ok ()
  | row :: rest =>
    if previous.any (row.entity ≤ ·) then .error (.snapshotOrder row.entity)
    else if (row.entity : ℕ) ≤ replica.highWater ∧ replica.indexOf row.entity = none then
      .error (.reusedEntityId row.entity)
    else replica.checkRows (some row.entity) rest

/-- Replaces the rows and the turn by those of a published snapshot. -/
def applySnapshot (replica : ReplicaWorld) (publication : Publication) :
    Except ReplicaError ReplicaWorld :=
  let last := replica.nextEventSeq - 1
  let body := publication.body
  if publication.cursor < last ∨ seqLast < publication.cursor then
    .error (.snapshotCursor last publication.cursor)
  else if maxVisibleEntities < body.entities.length then .error .tooManyEntities
  else
    match replica.checkRows none body.entities with
    | .error refusal => .error refusal
    | .ok () =>
      match (body.turn.bind TurnFact.active).filter
          fun active ↦ !body.entities.any (fun row ↦ row.entity = active) with
      | some active => .error (.unknownEntity active)
      | none =>
        .ok { replica with
          entities := body.entities.map fun row ↦ ⟨row.entity, row.health⟩
          turn := body.turn
          nextEventSeq := publication.cursor + 1
          serverTick := publication.baseTick
          highWater :=
            match body.entities.getLast? with
            | some row => max replica.highWater row.entity
            | none => replica.highWater }

/-! ### The rows as a map -/

/-- The invariant of a replica: rows ascend strictly by id, and no id lies above the mark. -/
structure WellFormed (replica : ReplicaWorld) : Prop where
  ascending : replica.entities.Pairwise fun first second ↦ first.netId < second.netId
  highWater : ∀ row ∈ replica.entities, (row.netId : ℕ) ≤ replica.highWater

def row? (replica : ReplicaWorld) (netId : NetId) : Option (Option HealthFact) :=
  Entries.lookup netId (replica.entities.map fun row ↦ (row.netId, row.health))

theorem wellFormed_new (epoch : SessionEpoch) : (new epoch).WellFormed :=
  ⟨List.Pairwise.nil, fun _ hrow ↦ by simp [new] at hrow⟩

variable {replica : ReplicaWorld}

section

variable (hreplica : replica.WellFormed)
include hreplica

/-- The map holds exactly the rows. -/
theorem WellFormed.row?_eq_some_iff {netId : NetId} {health : Option HealthFact} :
    replica.row? netId = some health ↔ ∃ index : ℕ, replica.entities[index]? =
      some ⟨netId, health⟩ := by
  have hascending : (replica.entities.map fun row ↦ (row.netId, row.health)).Pairwise
      fun first second ↦ first.1 < second.1 := List.pairwise_map.mpr hreplica.ascending
  unfold row?
  rw [Entries.lookup_eq_some_iff_mem (BTreeMap.nodup_fst hascending), List.mem_map,
    ← List.mem_iff_getElem?]
  constructor
  · rintro ⟨⟨found, stored⟩, hmem, hsame⟩
    rw [Prod.mk.injEq] at hsame
    obtain ⟨rfl, rfl⟩ := hsame
    exact hmem
  · exact fun hmem ↦ ⟨_, hmem, rfl⟩

theorem WellFormed.index_unique {first second : ℕ} {row other : ReplicaEntity}
    (hfirst : replica.entities[first]? = some row)
    (hsecond : replica.entities[second]? = some other) (hid : row.netId = other.netId) :
    first = second := by
  obtain ⟨hltFirst, rfl⟩ := List.getElem?_eq_some_iff.mp hfirst
  obtain ⟨hltSecond, rfl⟩ := List.getElem?_eq_some_iff.mp hsecond
  have horder := List.pairwise_iff_getElem.mp hreplica.ascending
  rcases lt_trichotomy first second with hlt | heq | hgt
  · exact absurd hid (ne_of_lt (horder _ _ hltFirst hltSecond hlt))
  · exact heq
  · exact absurd hid.symm (ne_of_lt (horder _ _ hltSecond hltFirst hgt))

theorem WellFormed.indexOf_eq_some_iff {netId : NetId} {index : ℕ} :
    replica.indexOf netId = some index ↔
      ∃ health, replica.entities[index]? = some ⟨netId, health⟩ := by
  unfold indexOf
  rw [binarySearch_eq_some_iff hreplica.ascending]
  constructor
  · rintro ⟨⟨found, health⟩, hrow, rfl⟩
    exact ⟨health, hrow⟩
  · rintro ⟨health, hrow⟩
    exact ⟨_, hrow, rfl⟩

/-- The search finds an id exactly when the map has it. -/
theorem WellFormed.indexOf_isSome (netId : NetId) :
    (replica.indexOf netId).isSome = (replica.row? netId).isSome := by
  rw [Bool.eq_iff_iff, Option.isSome_iff_exists, Option.isSome_iff_exists]
  constructor
  · rintro ⟨index, hindex⟩
    obtain ⟨health, hrow⟩ := hreplica.indexOf_eq_some_iff.mp hindex
    exact ⟨health, hreplica.row?_eq_some_iff.mpr ⟨index, hrow⟩⟩
  · rintro ⟨health, hrow⟩
    obtain ⟨index, hindex⟩ := hreplica.row?_eq_some_iff.mp hrow
    exact ⟨index, hreplica.indexOf_eq_some_iff.mpr ⟨health, hindex⟩⟩

theorem WellFormed.entity_eq (netId : NetId) :
    (replica.entity netId).map ReplicaEntity.health = replica.row? netId := by
  unfold entity
  cases hindex : replica.indexOf netId with
  | none =>
    have hnone := hreplica.indexOf_isSome netId
    rw [hindex, Option.isSome_none, eq_comm, Option.isSome_eq_false_iff, Option.isNone_iff_eq_none]
      at hnone
    rw [hnone]
    rfl
  | some index =>
    obtain ⟨health, hrow⟩ := hreplica.indexOf_eq_some_iff.mp hindex
    rw [Option.bind_some, hrow, hreplica.row?_eq_some_iff.mpr ⟨index, hrow⟩]
    rfl

theorem WellFormed.entity_of_row? {netId : NetId} {health : Option HealthFact}
    (hrow : replica.row? netId = some health) : replica.entity netId = some ⟨netId, health⟩ := by
  have hlive : (replica.indexOf netId).isSome := by
    rw [hreplica.indexOf_isSome, hrow]
    rfl
  obtain ⟨index, hindex⟩ := Option.isSome_iff_exists.mp hlive
  obtain ⟨stored, hstored⟩ := hreplica.indexOf_eq_some_iff.mp hindex
  rw [hreplica.row?_eq_some_iff.mpr ⟨index, hstored⟩, Option.some.injEq] at hrow
  rw [entity, hindex, Option.bind_some, hstored, hrow]

theorem WellFormed.row?_eq_none {netId : NetId} (hfresh : replica.highWater < netId) :
    replica.row? netId = none := by
  by_contra hsome
  obtain ⟨health, hrow⟩ := Option.ne_none_iff_exists'.mp hsome
  obtain ⟨index, hindex⟩ := hreplica.row?_eq_some_iff.mp hrow
  exact absurd (hreplica.highWater _ (List.mem_of_getElem? hindex)) (not_le.mpr hfresh)

/-! ### One operation at a time -/

/-- Entering an id above the mark is accepted while there is room, and adds its row. -/
theorem WellFormed.applyLegacy_entityEnter {netId : NetId} (hfresh : replica.highWater < netId)
    (hroom : replica.entities.length < maxReplicaEntities) :
    ∃ next, replica.applyLegacy (.entityEnter netId) = .ok next ∧ next.WellFormed ∧
      next.entities.length = replica.entities.length + 1 ∧ next.highWater = netId ∧
      next.turn = replica.turn ∧
      ∀ other, next.row? other = if other = netId then some none else replica.row? other := by
  have habsent := hreplica.row?_eq_none hfresh
  have hindex : ¬ (replica.indexOf netId).isSome := by
    rw [hreplica.indexOf_isSome, habsent]
    simp
  have hnext : ReplicaWorld.WellFormed { replica with
      entities := replica.entities ++ [⟨netId, none⟩], highWater := netId } := by
    refine ⟨List.pairwise_append.mpr ⟨hreplica.ascending, List.pairwise_singleton _ _, ?_⟩, ?_⟩
    · intro row hrow added hadded
      rw [List.mem_singleton] at hadded
      subst hadded
      exact PNat.coe_lt_coe _ _ |>.mp (lt_of_le_of_lt (hreplica.highWater row hrow) hfresh)
    · intro row hrow
      rcases List.mem_append.mp hrow with hold | hnew
      · exact le_of_lt (lt_of_le_of_lt (hreplica.highWater row hold) hfresh)
      · rw [List.mem_singleton] at hnew
        rw [hnew]
  refine ⟨_, ?_, hnext, by simp, rfl, rfl, fun other ↦ ?_⟩
  · simp only [applyLegacy, if_neg hindex, if_neg (not_le.mpr hfresh), if_neg (not_le.mpr hroom)]
  · refine Option.ext fun health ↦ ?_
    rw [hnext.row?_eq_some_iff, ← List.mem_iff_getElem?]
    split_ifs with hother
    · subst hother
      have hold : (⟨other, health⟩ : ReplicaEntity) ∉ replica.entities := fun hmem ↦
        absurd (hreplica.highWater _ hmem) (not_le.mpr hfresh)
      simp [hold, eq_comm]
    · rw [hreplica.row?_eq_some_iff, ← List.mem_iff_getElem?]
      simp [hother]

/-- Removing a live id by its position takes its row away. -/
theorem WellFormed.eraseIdx {netId : NetId} {index : ℕ}
    (hindex : replica.indexOf netId = some index) :
    ReplicaWorld.WellFormed { replica with entities := replica.entities.eraseIdx index } ∧
      ∀ other, ReplicaWorld.row? { replica with entities := replica.entities.eraseIdx index } other =
        if other = netId then none else replica.row? other := by
  obtain ⟨stored, hstored⟩ := hreplica.indexOf_eq_some_iff.mp hindex
  have hnext : ReplicaWorld.WellFormed
      { replica with entities := replica.entities.eraseIdx index } :=
    ⟨hreplica.ascending.sublist (List.eraseIdx_sublist ..),
      fun row hrow ↦ hreplica.highWater row (List.mem_of_mem_eraseIdx hrow)⟩
  refine ⟨hnext, fun other ↦ Option.ext fun health ↦ ?_⟩
  rw [hnext.row?_eq_some_iff, ← List.mem_iff_getElem?, List.mem_eraseIdx_iff_getElem?]
  split_ifs with hother
  · subst hother
    simp only [iff_false, not_exists, not_and]
    exact fun position hne hposition ↦ hne (hreplica.index_unique hposition hstored rfl)
  · rw [hreplica.row?_eq_some_iff]
    refine ⟨fun ⟨position, _, hposition⟩ ↦ ⟨position, hposition⟩, fun ⟨position, hposition⟩ ↦
      ⟨position, fun hsame ↦ hother ?_, hposition⟩⟩
    subst hsame
    rw [hstored, Option.some.injEq, ReplicaEntity.mk.injEq] at hposition
    exact hposition.1.symm

theorem WellFormed.applyLegacy_leave {netId : NetId} (hlive : (replica.row? netId).isSome)
    {op : DeltaOp} (hop : op = .entityLeave netId ∨ op = .despawned netId) :
    ∃ next, replica.applyLegacy op = .ok next ∧ next.WellFormed ∧
      next.highWater = replica.highWater ∧ next.turn = replica.turn ∧
      ∀ other, next.row? other = if other = netId then none else replica.row? other := by
  rw [← hreplica.indexOf_isSome, Option.isSome_iff_exists] at hlive
  obtain ⟨index, hindex⟩ := hlive
  obtain ⟨hnext, hrows⟩ := hreplica.eraseIdx hindex
  rcases hop with rfl | rfl
  · exact ⟨_, by simp only [applyLegacy, hindex], hnext, rfl, rfl, hrows⟩
  · exact ⟨_, by simp only [applyLegacy, hindex], hnext, rfl, rfl, hrows⟩

theorem WellFormed.applyLegacy_health {netId : NetId} (hlive : (replica.row? netId).isSome)
    (health maxHealth : ℕ) (dead : Bool) :
    ∃ next, replica.applyLegacy (.health netId health maxHealth dead) = .ok next ∧
      next.WellFormed ∧ next.highWater = replica.highWater ∧ next.turn = replica.turn ∧
      ∀ other, next.row? other =
        if other = netId then some (some ⟨health, maxHealth, dead⟩) else replica.row? other := by
  rw [← hreplica.indexOf_isSome, Option.isSome_iff_exists] at hlive
  obtain ⟨index, hindex⟩ := hlive
  obtain ⟨stored, hstored⟩ := hreplica.indexOf_eq_some_iff.mp hindex
  set update : ReplicaEntity → ReplicaEntity :=
    fun row ↦ { row with health := some ⟨health, maxHealth, dead⟩ }
  have hget (position : ℕ) : (replica.entities.modify index update)[position]? =
      (replica.entities[position]?).map fun row ↦ if index = position then update row else row :=
    List.getElem?_modify ..
  have hids : (replica.entities.modify index update).map ReplicaEntity.netId =
      replica.entities.map ReplicaEntity.netId := by
    refine List.ext_getElem? fun position ↦ ?_
    rw [List.getElem?_map, List.getElem?_map, hget, Option.map_map]
    refine congrArg (fun f ↦ (replica.entities[position]?).map f) (funext fun row ↦ ?_)
    simp only [Function.comp_apply]
    split_ifs <;> rfl
  have hnext : ReplicaWorld.WellFormed
      { replica with entities := replica.entities.modify index update } := by
    refine ⟨?_, fun row hrow ↦ ?_⟩
    · rw [← List.pairwise_map (f := ReplicaEntity.netId) (R := (· < ·))]
      simp only [hids]
      exact List.pairwise_map.mpr hreplica.ascending
    · have hid : row.netId ∈ (replica.entities.modify index update).map ReplicaEntity.netId :=
        List.mem_map_of_mem hrow
      rw [hids, List.mem_map] at hid
      obtain ⟨before, hbefore, hsame⟩ := hid
      exact hsame ▸ hreplica.highWater before hbefore
  refine ⟨_, by simp only [applyLegacy, hindex]; rfl, hnext, rfl, rfl, fun other ↦ ?_⟩
  refine Option.ext fun found ↦ ?_
  rw [hnext.row?_eq_some_iff]
  simp only [hget, Option.map_eq_some_iff]
  split_ifs with hother
  · subst hother
    constructor
    · rintro ⟨position, row, hrow, hsame⟩
      split_ifs at hsame with hposition
      · exact congrArg some (congrArg ReplicaEntity.health hsame)
      · subst hsame
        exact absurd (hreplica.index_unique hstored hrow rfl) hposition
    · intro hfound
      rw [Option.some.injEq] at hfound
      exact ⟨index, _, hstored, by simp [update, hfound]⟩
  · rw [hreplica.row?_eq_some_iff]
    constructor
    · rintro ⟨position, row, hrow, hsame⟩
      split_ifs at hsame with hposition
      · subst hposition
        rw [hstored, Option.some.injEq] at hrow
        subst hrow
        exact absurd (congrArg ReplicaEntity.netId hsame).symm hother
      · exact ⟨position, hsame ▸ hrow⟩
    · rintro ⟨position, hposition⟩
      refine ⟨position, _, hposition, if_neg fun hsame ↦ hother ?_⟩
      subst hsame
      rw [hstored, Option.some.injEq, ReplicaEntity.mk.injEq] at hposition
      exact hposition.1.symm

/-- A turn operation whose active id, if any, is live is accepted and stored. -/
theorem WellFormed.applyLegacy_turn (active : Option NetId) (round : ℕ)
    (hactive : ∀ netId, active = some netId → (replica.row? netId).isSome) :
    replica.applyLegacy (.turn active round) =
      .ok { replica with turn := some ⟨active, round⟩ } := by
  cases active with
  | none => rfl
  | some netId =>
    have hlive : (replica.indexOf netId).isSome := by
      rw [hreplica.indexOf_isSome]
      exact hactive netId rfl
    simp only [applyLegacy, requireLive, if_pos hlive]

end

end ReplicaWorld

end Crpg.Net
