import Crpg.Data.Reader
import Crpg.Sim.Grounding

/-!
# Saved creatures

The serialized form of the records: `crpg-sim/src/creature.rs`, the pools of
`crpg-rules/src/resource.rs`, the store of `store.rs`, and the part of the loader of `world.rs` that
checks the records. A record that fits its machine integers is read back as it was written, and a
world whose records pass the checks of the loader loads them unchanged (`reloads_iff`).
-/

set_option autoImplicit false

namespace Crpg.Sim

open Crpg.Core Crpg.Lib Crpg.Rules Crpg.Data
open Option (bind_eq_bind bind_eq_some_iff bind_some)

/-! ### Pools -/

def serializeTrigger : RefreshTrigger → Value
  | .onTurnStart => .object [("type", .string "on_turn_start")]
  | .onRoundStart => .object [("type", .string "on_round_start")]
  | .onRest rest => .object [("type", .string "on_rest"), ("value", .string (ulidText rest))]
  | .onTick period => .object [("type", .string "on_tick"), ("value", .integer period)]
  | .never => .object [("type", .string "never")]

/-- The `value` of a tagged object: a text or a count. -/
inductive WireValue
  | text (text : String)
  | count (count : ℕ)

/-- Reads the `value` of a tagged object. -/
def readWireValue : Value → Option WireValue
  | .string text => some (.text text)
  | value => (readNat u64Max value).map .count

/-- `collect_tagged`: the `type` of a tagged object and its `value`, if it has one. -/
def collectTagged : Value → Option (String × Option WireValue)
  | .object members => do
    let members ← readMembers ["type", "value"] (.object members)
    let kind ← required members "type" Value.asStr
    match Value.getMember members "value" with
    | none => some (kind, none)
    | some value => (readWireValue value).map fun wire ↦ (kind, some wire)
  | _ => none

def deserializeTrigger (value : Value) : Option RefreshTrigger :=
  (collectTagged value).bind fun
    | (kind, none) =>
      if kind = "on_turn_start" then some .onTurnStart
      else if kind = "on_round_start" then some .onRoundStart
      else if kind = "never" then some .never
      else none
    | (kind, some (.text text)) =>
      if kind = "on_rest" then (parseUlid text).toOption.map .onRest else none
    | (kind, some (.count period)) =>
      if kind = "on_tick" ∧ period ≠ 0 then some (.onTick period) else none

def poolMembers (pool : ResourcePool) : List (String × Value) :=
  [("id", .string (ulidText pool.id)), ("max", .integer pool.max),
    ("current", .integer pool.current), ("refresh", serializeTrigger pool.refreshTrigger)] ++
    match pool.refill with
    | none => []
    | some refill => [("refill", .integer refill)]

/-- The wire object of a pool. -/
def serializePool (pool : ResourcePool) : Value := .object (poolMembers pool)

/-- `present_refill`: a refill amount that is there is not zero. -/
def presentRefill (members : List (String × Value)) : Option (Option ℕ) :=
  match Value.getMember members "refill" with
  | none => some none
  | some value => (readNat u32Max value).bind fun refill ↦
      if refill = 0 then none else some (some refill)

/-- Reads a pool through its constructor. -/
def deserializePool (value : Value) : Option ResourcePool := do
  let members ← readMembers ["id", "max", "current", "refresh", "refill"] value
  let id ← required members "id" readUlid
  let max ← required members "max" (readNat u32Max)
  let current ← required members "current" (readNat u32Max)
  let refresh ← required members "refresh" deserializeTrigger
  let refill ← presentRefill members
  (ResourcePool.withRefill id max current refresh refill).toOption

/-! ### Records -/

def serializeSuspended (entry : SuspendedEffect) : Value :=
  .object [("effect", .string (ulidText entry.effect)),
    ("remaining_rounds", .integer entry.remainingRounds)]

def deserializeSuspended (value : Value) : Option SuspendedEffect := do
  let members ← readMembers ["effect", "remaining_rounds"] value
  let effect ← required members "effect" readUlid
  let remaining ← required members "remaining_rounds" (readNat u32Max)
  some ⟨effect, remaining⟩

def serializeStat (stat : String × ℤ) : Value := .array [.string stat.1, .integer stat.2]

def deserializeStat : Value → Option (String × ℤ) := readPair Value.asStr readI32

/-- The pair of a stat name and its raw `Fixed` value. -/
def serializeFixed (stat : String × Fx16) : Value := .array [.string stat.1, .integer stat.2.raw]

/-- Reads a raw `Fixed` value. -/
def readFixed (value : Value) : Option Fx16 := (readI32 value).map Fx16.mk

/-- Reads a stat name and its raw `Fixed` value. -/
def deserializeFixed : Value → Option (String × Fx16) := readPair Value.asStr readFixed

/-- The members of a record; empty `fixed`, `suspended` and `tags` are left out. -/
def creatureMembers (record : CreatureState) : List (String × Value) :=
  [("placement", .string (ulidText record.placement)),
    ("ruleset", .string (ulidText record.ruleset)),
    ("attributes", .array (record.attributes.map serializeStat))] ++
    memberUnlessEmpty "fixed" serializeFixed record.fixed ++
    [("health", .integer record.health), ("max_health", .integer record.maxHealth),
      ("pools", .array (record.pools.map serializePool))] ++
    memberUnlessEmpty "suspended" serializeSuspended record.suspended ++
    memberUnlessEmpty "tags" Value.string record.tags

/-- The wire object of a record. -/
def serializeCreature (record : CreatureState) : Value := .object (creatureMembers record)

def creatureFields : List String :=
  ["placement", "ruleset", "attributes", "fixed", "health", "max_health", "pools", "suspended",
    "tags"]

/-- Reads a record. -/
def deserializeCreature (value : Value) : Option CreatureState := do
  let members ← readMembers creatureFields value
  let placement ← required members "placement" readUlid
  let ruleset ← required members "ruleset" readUlid
  let attributes ← required members "attributes" (readItems deserializeStat)
  let fixed ← itemsOrEmpty members "fixed" deserializeFixed
  let health ← required members "health" (readNat u32Max)
  let maxHealth ← required members "max_health" (readNat u32Max)
  let pools ← required members "pools" (readItems deserializePool)
  let suspended ← itemsOrEmpty members "suspended" deserializeSuspended
  let tags ← itemsOrEmpty members "tags" Value.asStr
  some
    { placement := placement
      ruleset := ruleset
      attributes := attributes
      fixed := fixed
      health := health
      maxHealth := maxHealth
      pools := pools
      suspended := suspended
      tags := tags }

/-! ### The store -/

def serializeId (id : EntityId) : Value :=
  .object [("index", .integer id.index), ("generation", .integer id.generation)]

/-- Reads an entity; an arena issues neither generation zero nor the retired one. -/
def deserializeId (value : Value) : Option EntityId := do
  let members ← readMembers ["index", "generation"] value
  let index ← required members "index" (readNat u32Max)
  let generation ← required members "generation" (readNat u32Max)
  if generation = 0 ∨ generation = retiredGeneration then none else some ⟨index, generation⟩

/-- The wire pairs of the records, in insertion order. -/
def serializeStore (store : ComponentStore CreatureState) : Value :=
  .array (store.entries.map fun entry ↦ .array [serializeId entry.1, serializeCreature entry.2])

def deserializeStore (value : Value) : Option (ComponentStore CreatureState) :=
  (readItems (readPair deserializeId deserializeCreature) value).map IndexMap.ofList

def serializeCreatures (world : World) : List (String × Value) :=
  if world.creatures.isEmpty then [] else [("creatures", serializeStore world.creatures)]

/-- What the loader asks of one record. -/
structure RecordCoherent (record : CreatureState) : Prop where
  maximum : record.maxHealth ≠ 0
  health : record.health ≤ record.maxHealth
  declares : record.pools ≠ []
  pools : (record.pools.map ResourcePool.id).Nodup
  names : (record.attributes.map Prod.fst ++ record.fixed.map Prod.fst).Nodup
  attachments : record.suspended.IsChain fun first second ↦ first.effect < second.effect
  remaining : ∀ entry ∈ record.suspended, entry.remainingRounds ≠ 0
  tags : record.tags.IsChain (· < ·)
  bound : record.tags.length ≤ maxTags

instance (record : CreatureState) : Decidable (RecordCoherent record) :=
  decidable_of_iff (record.maxHealth ≠ 0 ∧ record.health ≤ record.maxHealth ∧ record.pools ≠ [] ∧
    (record.pools.map ResourcePool.id).Nodup ∧
    (record.attributes.map Prod.fst ++ record.fixed.map Prod.fst).Nodup ∧
    (record.suspended.IsChain fun first second ↦ first.effect < second.effect) ∧
    (∀ entry ∈ record.suspended, entry.remainingRounds ≠ 0) ∧ record.tags.IsChain (· < ·) ∧
    record.tags.length ≤ maxTags)
    ⟨fun ⟨h1, h2, h3, h4, h5, h6, h7, h8, h9⟩ ↦ ⟨h1, h2, h3, h4, h5, h6, h7, h8, h9⟩,
      fun ⟨h1, h2, h3, h4, h5, h6, h7, h8, h9⟩ ↦ ⟨h1, h2, h3, h4, h5, h6, h7, h8, h9⟩⟩

/-- What the loader asks of the records of a world: they are coherent, of live entities that do not
fight, and of distinct placements. -/
def CreaturesCoherent (world : World) (creatures : ComponentStore CreatureState) : Prop :=
  (∀ id ∈ creatures.keys, world.contains id = true ∧ world.combatants.contains id = false) ∧
    (∀ record ∈ creatures.values, RecordCoherent record) ∧
    (creatures.values.map CreatureState.placement).Nodup

instance (world : World) (creatures : ComponentStore CreatureState) :
    Decidable (CreaturesCoherent world creatures) := by
  unfold CreaturesCoherent
  infer_instance

def readCreatures (members : List (String × Value)) : Option (ComponentStore CreatureState) :=
  match Value.getMember members "creatures" with
  | none => some .empty
  | some value => deserializeStore value

/-- Loads the records of a world from its members, beside its entities and combatants. -/
def loadCreatures (world : World) (members : List (String × Value)) :
    Option (ComponentStore CreatureState) := do
  let creatures ← readCreatures members
  if CreaturesCoherent world creatures then some creatures else none

/-! ### Reading what was written -/

/-- A trigger within its machine integer. -/
def TriggerFits : RefreshTrigger → Prop
  | .onTick period => period ≠ 0 ∧ period ≤ u64Max
  | _ => True

/-- A pool within its machine integers. -/
structure PoolFits (pool : ResourcePool) : Prop where
  max : pool.max ≤ u32Max
  trigger : TriggerFits pool.refreshTrigger
  refill : ∀ refill ∈ pool.refill, refill ≠ 0 ∧ refill ≤ u32Max

/-- A record within its machine integers. -/
structure RecordFits (record : CreatureState) : Prop where
  attributes : ∀ stat ∈ record.attributes, InI32 stat.2
  fixed : ∀ stat ∈ record.fixed, InI32 stat.2.raw
  health : record.health ≤ u32Max
  maxHealth : record.maxHealth ≤ u32Max
  pools : ∀ pool ∈ record.pools, PoolFits pool
  suspended : ∀ entry ∈ record.suspended, entry.remainingRounds ≤ u32Max

theorem collectTagged_unit (kind : String) :
    collectTagged (.object [("type", .string kind)]) = some (kind, none) := by
  have hmembers : readMembers ["type", "value"] (.object [("type", .string kind)]) =
      some [("type", .string kind)] :=
    readMembers_object (by decide) (List.Sublist.cons_cons _ (List.nil_sublist _))
  simp [collectTagged, hmembers, required, Value.asStr, Value.getMember, Entries.lookup]

theorem collectTagged_value (kind : String) (value : Value) :
    collectTagged (.object [("type", .string kind), ("value", value)]) =
      (readWireValue value).map fun wire ↦ (kind, some wire) := by
  have hmembers : readMembers ["type", "value"]
      (.object [("type", .string kind), ("value", value)]) =
      some [("type", .string kind), ("value", value)] :=
    readMembers_object (by decide) (List.Sublist.refl _)
  simp [collectTagged, hmembers, required, getMember_cons, Value.asStr]

theorem reads_trigger : Reads deserializeTrigger serializeTrigger TriggerFits := by
  intro trigger found
  unfold deserializeTrigger serializeTrigger TriggerFits
  cases trigger with
  | onTurnStart => simp [collectTagged_unit, eq_comm]
  | onRoundStart => simp [collectTagged_unit, eq_comm]
  | never => simp [collectTagged_unit, eq_comm]
  | onRest rest =>
    simp [collectTagged_value, readWireValue, parse_ulidText, Except.toOption, eq_comm]
  | onTick period =>
    have hperiod := reads_nat u64Max period
    simp only [collectTagged_value, readWireValue]
    by_cases hbound : period ≤ u64Max
    · rw [(hperiod period).mpr ⟨hbound, rfl⟩]
      by_cases hzero : period = 0
      · simp [hzero]
      · simp [hzero, hbound, eq_comm]
    · have hnone : readNat u64Max (.integer period) = none := by
        refine Option.eq_none_iff_forall_ne_some.mpr fun other hother ↦ ?_
        exact hbound ((hperiod other).mp hother).1
      rw [hnone]
      simp [hbound]

theorem withRefill_self (pool : ResourcePool) :
    ResourcePool.withRefill pool.id pool.max pool.current pool.refreshTrigger pool.refill =
      .ok pool := by
  unfold ResourcePool.withRefill
  rw [dif_neg pool.current_le.not_gt, dif_neg pool.period_ne]

theorem presentRefill_eq {members : List (String × Value)} {refill : Option ℕ}
    (hmember : Value.getMember members "refill" = refill.map fun amount ↦ .integer amount)
    (found : Option ℕ) : presentRefill members = some found ↔
      (∀ amount ∈ refill, amount ≠ 0 ∧ amount ≤ u32Max) ∧ found = refill := by
  unfold presentRefill
  rw [hmember]
  cases refill with
  | none => simp [eq_comm]
  | some amount =>
    have hread := reads_nat u32Max amount
    show (readNat u32Max (.integer amount)).bind (fun refill ↦
      if refill = 0 then none else some (some refill)) = some found ↔ _
    rw [bind_eq_some_iff]
    simp only [hread, Option.mem_def, Option.some.injEq, forall_eq']
    constructor
    · rintro ⟨_, ⟨hbound, rfl⟩, hsome⟩
      split_ifs at hsome with hzero
      exact ⟨⟨hzero, hbound⟩, (Option.some.inj hsome).symm⟩
    · rintro ⟨⟨hzero, hbound⟩, rfl⟩
      exact ⟨amount, ⟨hbound, rfl⟩, if_neg hzero⟩

theorem readMembers_pool (pool : ResourcePool) :
    readMembers ["id", "max", "current", "refresh", "refill"] (serializePool pool) =
      some (poolMembers pool) := by
  refine readMembers_object (by decide) ?_
  unfold poolMembers
  cases pool.refill with
  | none => exact List.sublist_append_left ["id", "max", "current", "refresh"] ["refill"]
  | some refill => exact List.Sublist.refl _

theorem reads_pool : Reads deserializePool serializePool PoolFits := by
  intro pool found
  have hid := @Reads.required _ _ _ _ reads_ulid (poolMembers pool) "id" pool.id rfl
  have hmax := @Reads.required _ _ _ _ (reads_nat u32Max) (poolMembers pool) "max" pool.max rfl
  have hcurrent :=
    @Reads.required _ _ _ _ (reads_nat u32Max) (poolMembers pool) "current" pool.current rfl
  have hrefresh :=
    @Reads.required _ _ _ _ reads_trigger (poolMembers pool) "refresh" pool.refreshTrigger rfl
  have hrefill := @presentRefill_eq (poolMembers pool) pool.refill
    (by unfold poolMembers; cases pool.refill <;> rfl)
  simp only [deserializePool, readMembers_pool, bind_eq_bind, bind_some, bind_eq_some_iff, hid,
    hmax, hcurrent, hrefresh, hrefill]
  constructor
  · rintro ⟨_, ⟨-, rfl⟩, _, ⟨hmax, rfl⟩, _, ⟨-, rfl⟩, _, ⟨htrigger, rfl⟩, _, ⟨hrefill, rfl⟩, hpool⟩
    rw [withRefill_self] at hpool
    exact ⟨⟨hmax, htrigger, hrefill⟩, (Option.some.inj hpool).symm⟩
  · rintro ⟨⟨hmax, htrigger, hrefill⟩, rfl⟩
    refine ⟨_, ⟨trivial, rfl⟩, _, ⟨hmax, rfl⟩, _, ⟨found.current_le.trans hmax, rfl⟩, _,
      ⟨htrigger, rfl⟩, _, ⟨hrefill, rfl⟩, ?_⟩
    rw [withRefill_self]
    rfl

theorem reads_suspended : Reads deserializeSuspended serializeSuspended
    fun entry ↦ entry.remainingRounds ≤ u32Max := by
  intro entry found
  have hmembers : readMembers ["effect", "remaining_rounds"] (serializeSuspended entry) =
      some [("effect", .string (ulidText entry.effect)),
        ("remaining_rounds", .integer entry.remainingRounds)] :=
    readMembers_object (by decide) (List.Sublist.refl _)
  have heffect := fun rest ↦ @Reads.required _ _ _ _ reads_ulid _ "effect" entry.effect
    (getMember_cons "effect" "effect" (.string (ulidText entry.effect)) rest)
  have hremaining := @Reads.required _ _ _ _ (reads_nat u32Max)
    [("effect", .string (ulidText entry.effect)),
      ("remaining_rounds", .integer entry.remainingRounds)] "remaining_rounds"
    entry.remainingRounds rfl
  simp only [deserializeSuspended, hmembers, bind_eq_bind, bind_some, bind_eq_some_iff, heffect,
    hremaining]
  constructor
  · rintro ⟨_, ⟨-, rfl⟩, _, ⟨hfits, rfl⟩, hfound⟩
    exact ⟨hfits, (Option.some.inj hfound).symm⟩
  · rintro ⟨hfits, rfl⟩
    exact ⟨_, ⟨trivial, rfl⟩, _, ⟨hfits, rfl⟩, rfl⟩

theorem reads_fixed : Reads readFixed (fun value ↦ .integer value.raw)
    fun value ↦ InI32 value.raw := by
  intro value found
  unfold readFixed
  rw [Option.map_eq_some_iff]
  simp only [reads_i32 value.raw]
  constructor
  · rintro ⟨_, ⟨hfits, rfl⟩, rfl⟩
    exact ⟨hfits, rfl⟩
  · rintro ⟨hfits, rfl⟩
    exact ⟨_, ⟨hfits, rfl⟩, rfl⟩

theorem reads_id : Reads deserializeId serializeId fun id ↦
    (id.index ≤ u32Max ∧ id.generation ≤ u32Max) ∧ EntityId.Issuable id := by
  intro id found
  have hmembers : readMembers ["index", "generation"] (serializeId id) =
      some [("index", .integer id.index), ("generation", .integer id.generation)] :=
    readMembers_object (by decide) (List.Sublist.refl _)
  have hindex := @Reads.required _ _ _ _ (reads_nat u32Max)
    [("index", .integer id.index), ("generation", .integer id.generation)] "index" id.index rfl
  have hgeneration := @Reads.required _ _ _ _ (reads_nat u32Max)
    [("index", .integer id.index), ("generation", .integer id.generation)] "generation"
    id.generation rfl
  simp only [deserializeId, hmembers, bind_eq_bind, bind_some, bind_eq_some_iff, hindex,
    hgeneration]
  constructor
  · rintro ⟨_, ⟨hindex, rfl⟩, _, ⟨hgeneration, rfl⟩, hfound⟩
    split_ifs at hfound with hissued
    rw [not_or] at hissued
    exact ⟨⟨⟨hindex, hgeneration⟩, hissued⟩, (Option.some.inj hfound).symm⟩
  · rintro ⟨⟨⟨hindex, hgeneration⟩, hissuable⟩, rfl⟩
    refine ⟨_, ⟨hindex, rfl⟩, _, ⟨hgeneration, rfl⟩, ?_⟩
    rw [if_neg (not_or.mpr hissuable)]

theorem readMembers_creature (record : CreatureState) :
    readMembers creatureFields (serializeCreature record) = some (creatureMembers record) := by
  refine readMembers_object (by decide) ?_
  have hfixed := keys_memberUnlessEmpty "fixed" serializeFixed record.fixed
  have hsuspended := keys_memberUnlessEmpty "suspended" serializeSuspended record.suspended
  have htags := keys_memberUnlessEmpty "tags" Value.string record.tags
  unfold creatureMembers
  simp only [List.map_append]
  exact ((((List.Sublist.refl ["placement", "ruleset", "attributes"]).append hfixed).append
    (List.Sublist.refl ["health", "max_health", "pools"])).append hsuspended).append htags

section Fields

variable (record : CreatureState)

theorem getMember_head : Value.getMember (creatureMembers record) "placement" =
        some (.string (ulidText record.placement)) ∧
      Value.getMember (creatureMembers record) "ruleset" =
        some (.string (ulidText record.ruleset)) ∧
      Value.getMember (creatureMembers record) "attributes" =
        some (.array (record.attributes.map serializeStat)) ∧
      Value.getMember (creatureMembers record) "fixed" =
        if record.fixed = [] then none else some (.array (record.fixed.map serializeFixed)) := by
  refine ⟨rfl, rfl, rfl, ?_⟩
  simp [creatureMembers, getMember_append, getMember_cons,
    getMember_memberUnlessEmpty]

theorem getMember_counts :
    Value.getMember (creatureMembers record) "health" = some (.integer record.health) ∧
      Value.getMember (creatureMembers record) "max_health" = some (.integer record.maxHealth) ∧
      Value.getMember (creatureMembers record) "pools" =
        some (.array (record.pools.map serializePool)) := by
  simp [creatureMembers, getMember_append, getMember_cons,
    getMember_memberUnlessEmpty]

theorem getMember_tail : Value.getMember (creatureMembers record) "suspended" =
        (if record.suspended = [] then none
        else some (.array (record.suspended.map serializeSuspended))) ∧
      Value.getMember (creatureMembers record) "tags" =
        if record.tags = [] then none else some (.array (record.tags.map Value.string)) := by
  simp [creatureMembers, getMember_append, getMember_cons,
    getMember_memberUnlessEmpty]

end Fields

theorem reads_creature : Reads deserializeCreature serializeCreature RecordFits := by
  intro record found
  obtain ⟨hfirst, hsecond, hthird, hfourth⟩ := getMember_head record
  obtain ⟨hfifth, hsixth, hseventh⟩ := getMember_counts record
  obtain ⟨heighth, hninth⟩ := getMember_tail record
  have hplacement := @Reads.required _ _ _ _ reads_ulid _ _ record.placement hfirst
  have hruleset := @Reads.required _ _ _ _ reads_ulid _ _ record.ruleset hsecond
  have hattributes := @Reads.required _ _ _ _ (reads_text.pair reads_i32).items _ _
    record.attributes hthird
  have hfixed := @Reads.itemsOrEmpty _ _ _ _ (reads_text.pair reads_fixed) _ _ record.fixed hfourth
  have hhealth := @Reads.required _ _ _ _ (reads_nat u32Max) _ _ record.health hfifth
  have hmaximum := @Reads.required _ _ _ _ (reads_nat u32Max) _ _ record.maxHealth hsixth
  have hpools := @Reads.required _ _ _ _ reads_pool.items _ _ record.pools hseventh
  have hsuspended := @Reads.itemsOrEmpty _ _ _ _ reads_suspended _ _ record.suspended heighth
  have htags := @Reads.itemsOrEmpty _ _ _ _ reads_text _ _ record.tags hninth
  simp only [deserializeCreature, readMembers_creature, bind_eq_bind, bind_some, bind_eq_some_iff,
    deserializeStat, deserializeFixed, hplacement, hruleset, hattributes, hfixed, hhealth, hmaximum,
    hpools, hsuspended, htags]
  constructor
  · rintro ⟨_, ⟨-, rfl⟩, _, ⟨-, rfl⟩, _, ⟨hattributes, rfl⟩, _, ⟨hfixed, rfl⟩, _, ⟨hhealth, rfl⟩,
      _, ⟨hmaximum, rfl⟩, _, ⟨hpools, rfl⟩, _, ⟨hsuspended, rfl⟩, _, ⟨-, rfl⟩, hfound⟩
    exact ⟨⟨fun stat hstat ↦ (hattributes stat hstat).2, fun stat hstat ↦ (hfixed stat hstat).2,
      hhealth, hmaximum, hpools, hsuspended⟩, (Option.some.inj hfound).symm⟩
  · rintro ⟨⟨hattributes, hfixed, hhealth, hmaximum, hpools, hsuspended⟩, rfl⟩
    exact ⟨_, ⟨trivial, rfl⟩, _, ⟨trivial, rfl⟩, _,
      ⟨fun stat hstat ↦ ⟨trivial, hattributes stat hstat⟩, rfl⟩, _,
      ⟨fun stat hstat ↦ ⟨trivial, hfixed stat hstat⟩, rfl⟩, _, ⟨hhealth, rfl⟩, _,
      ⟨hmaximum, rfl⟩, _, ⟨hpools, rfl⟩, _, ⟨hsuspended, rfl⟩, _,
      ⟨fun _ _ ↦ trivial, rfl⟩, rfl⟩

/-- An entry of a store within its machine integers, under an issued identity. -/
def EntryFits (entry : EntityId × CreatureState) : Prop :=
  ((entry.1.index ≤ u32Max ∧ entry.1.generation ≤ u32Max) ∧ EntityId.Issuable entry.1) ∧
    RecordFits entry.2

theorem deserializeStore_eq_some_iff {store found : ComponentStore CreatureState} :
    deserializeStore (serializeStore store) = some found ↔
      (∀ entry ∈ store.entries, EntryFits entry) ∧ found = store := by
  have hitems := (reads_id.pair reads_creature).items store.entries
  unfold deserializeStore serializeStore
  rw [Option.map_eq_some_iff]
  constructor
  · rintro ⟨entries, hread, rfl⟩
    obtain ⟨hfits, rfl⟩ := (hitems entries).mp hread
    exact ⟨hfits, store.ofList_entries⟩
  · rintro ⟨hfits, rfl⟩
    exact ⟨found.entries, (hitems found.entries).mpr ⟨hfits, rfl⟩, found.ofList_entries⟩

theorem loadCreatures_eq_some_iff {world : World} {found : ComponentStore CreatureState} :
    loadCreatures world (serializeCreatures world) = some found ↔
      ((∀ entry ∈ world.creatures.entries, EntryFits entry) ∧
        CreaturesCoherent world world.creatures) ∧ found = world.creatures := by
  have hread (creatures : ComponentStore CreatureState) :
      readCreatures (serializeCreatures world) = some creatures ↔
        (∀ entry ∈ world.creatures.entries, EntryFits entry) ∧ creatures = world.creatures := by
    unfold serializeCreatures
    by_cases hempty : world.creatures.isEmpty = true
    · have hnil : world.creatures = .empty := by
        rw [← world.creatures.ofList_entries, List.isEmpty_iff.mp hempty]
        rfl
      rw [if_pos hempty, hnil]
      show some _ = some creatures ↔ _
      rw [Option.some.injEq]
      exact ⟨fun heq ↦ ⟨fun _ hmem ↦ absurd hmem List.not_mem_nil, heq.symm⟩, fun heq ↦ heq.2.symm⟩
    · rw [if_neg hempty]
      exact deserializeStore_eq_some_iff
  simp only [loadCreatures, bind_eq_bind, bind_eq_some_iff, hread]
  constructor
  · rintro ⟨_, ⟨hfits, rfl⟩, hfound⟩
    split_ifs at hfound with hcoherent
    exact ⟨⟨hfits, hcoherent⟩, (Option.some.inj hfound).symm⟩
  · rintro ⟨⟨hfits, hcoherent⟩, rfl⟩
    exact ⟨_, ⟨hfits, rfl⟩, if_pos hcoherent⟩

/-- A world written and read back, as far as its records go: they pass their wire form and the
checks of the loader, which may refuse them. The loader's other members are taken to read back as
they were written. -/
def Reloads (world next : World) : Prop :=
  ∃ creatures, loadCreatures world (serializeCreatures world) = some creatures ∧
    next = { world with creatures := creatures }

theorem reloads_iff {world next : World} :
    Reloads world next ↔ ((∀ entry ∈ world.creatures.entries, EntryFits entry) ∧
      CreaturesCoherent world world.creatures) ∧ next = world := by
  unfold Reloads
  simp only [loadCreatures_eq_some_iff]
  constructor
  · rintro ⟨_, ⟨hloads, rfl⟩, rfl⟩
    exact ⟨hloads, rfl⟩
  · rintro ⟨hloads, rfl⟩
    exact ⟨_, ⟨hloads, rfl⟩, rfl⟩

end Crpg.Sim
