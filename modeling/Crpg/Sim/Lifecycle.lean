import Crpg.Sim.MortalityRun

/-!
# Creatures across encounters

A creature is kept by a record, or by a combatant that leaves a record behind when its encounter is
released (`Keeps`). Every operation changes what is kept in one place only: a registration and a
spawning participant add one creature, a despawn takes one away, a transfer does both in two worlds,
an entry and a release carry it from one table to the other, and a death leaves it where it is.

`World.population` counts the living among them.
-/

set_option autoImplicit false

namespace Crpg.Sim

open Crpg.Core Crpg.Lib Crpg.Rules Crpg.Data
open Result (bind_eq_ok_iff bind_ok_iff pure_ok_iff)

/-! ### The rules of the encounter -/

/-- The lifecycle rules of the active encounter. -/
def World.lifecycle (world : World) : Option Lifecycle := world.combat.map CombatState.lifecycle

/-- Whether the active encounter spawns its participants afresh and keeps none of them. -/
def World.respawns (world : World) : Bool := world.lifecycle.any Lifecycle.respawns

section Rules

variable {world next : World} {facts : TransitionFacts}

theorem lifecycle_congr (hcombat : next.combat = world.combat) : next.lifecycle = world.lifecycle :=
  congrArg (Option.map CombatState.lifecycle) hcombat

/-- A pass keeps the rules of the encounter. -/
theorem Passed.lifecycle {strict : Prop} (hpassed : Passed strict world next) :
    next.lifecycle = world.lifecycle := by
  have hrules := congrArg (Option.map Prod.snd) hpassed.rules
  rw [Option.map_map, Option.map_map] at hrules
  exact hrules

theorem resolveUse_lifecycle {actor target : EntityId} {ability : Ulid} {outcome : ActionOutcome}
    (hresolve : resolveUse world actor ability target = .ok (outcome, next)) :
    next.lifecycle = world.lifecycle := by
  obtain ⟨_, _, _, _, rfl, -⟩ := resolveUse_frame hresolve
  rfl

/-- An accepted action keeps the rules of the encounter. -/
theorem performActionTracked_lifecycle {action : CombatAction}
    {produced : Option ActionOutcome × TransitionFacts}
    (hperform : performActionTracked world action = .ok (produced, next)) :
    next.lifecycle = world.lifecycle := by
  rcases performActionTracked_cases False.elim hperform with ⟨-, htransits⟩ |
    ⟨_, _, -, ⟨_, _, _, -, -, hresolve⟩, htransits⟩
  · exact htransits.passed.lifecycle
  · exact htransits.passed.lifecycle.trans (resolveUse_lifecycle hresolve)

/-- A tick keeps the rules of the encounter. -/
theorem tickTracked_lifecycle {ticked : TickFacts}
    (htick : tickTracked world = .ok (ticked, next)) : next.lifecycle = world.lifecycle := by
  unfold tickTracked at htick
  obtain ⟨⟨_, staged⟩, hclock, hexecute⟩ := bind_eq_ok_iff.mp htick
  have hexecuted : next.lifecycle = staged.lifecycle :=
    lifecycle_congr (executionStage_combat hexecute)
  exact hexecuted.trans (clockStage_transits False.elim hclock).passed.lifecycle

/-- A despawn keeps the rules of the encounter, or releases it with its last combatant. -/
theorem despawnTracked_lifecycle {id : EntityId} {removed : Bool × TransitionFacts}
    (hdespawn : despawnTracked world id = .ok (removed, next)) :
    next.lifecycle = world.lifecycle ∨ next.combatants.keys = [] := by
  unfold despawnTracked at hdespawn
  split at hdespawn
  · cases hdespawn
    exact Or.inl rfl
  · obtain ⟨⟨_, settled⟩, hsettle, hnext⟩ := bind_eq_ok_iff.mp hdespawn
    cases hnext
    unfold settleDespawn at hsettle
    split_ifs at hsettle with hempty
    · cases hsettle
      exact Or.inr (IndexMap.isEmpty_iff.mp hempty)
    · exact Or.inl (advanceTracked_transits False.elim hsettle).passed.lifecycle
    · cases hsettle
      exact Or.inl rfl

end Rules

/-! ### What a world keeps -/

/-- A creature with an identity of its own: its entity, the placement it fills, and whether it is
dead. -/
structure Persistent where
  entity : EntityId
  placement : Ulid
  dead : Bool
deriving DecidableEq

def Keeps (respawns : Bool) (world : World) (creature : Persistent) : Prop :=
  (∃ record, world.creatures.get? creature.entity = some record ∧
    record.placement = creature.placement ∧ record.dead = creature.dead) ∨
  ∃ combatant, world.combatants.get? creature.entity = some combatant ∧
    (combatant.entered || !respawns) = true ∧ combatant.placement = creature.placement ∧
    combatant.dead = creature.dead

/-- The creatures a world keeps: its records, then the combatants that leave one behind. -/
def World.persistents (world : World) : List Persistent :=
  (world.creatures.entries.map fun entry ↦ ⟨entry.1, entry.2.placement, entry.2.dead⟩) ++
    (world.combatants.entries.filter fun entry ↦ entry.2.entered || !world.respawns).map
      fun entry ↦ ⟨entry.1, entry.2.placement, entry.2.dead⟩

def World.population (world : World) : Multiset (EntityId × Ulid) :=
  ((world.persistents.filter fun creature ↦ !creature.dead).map fun creature ↦
    (creature.entity, creature.placement) : List (EntityId × Ulid))

theorem mem_persistents {world : World} {creature : Persistent} :
    creature ∈ world.persistents ↔ Keeps world.respawns world creature := by
  obtain ⟨entity, placement, dead⟩ := creature
  rw [World.persistents, List.mem_append, Keeps]
  refine or_congr ?_ ?_
  · simp only [List.mem_map, Persistent.mk.injEq, Prod.exists, IndexMap.mem_entries_iff]
    constructor
    · rintro ⟨_, record, hget, rfl, rfl, rfl⟩
      exact ⟨record, hget, rfl, rfl⟩
    · rintro ⟨record, hget, rfl, rfl⟩
      exact ⟨entity, record, hget, rfl, rfl, rfl⟩
  · simp only [List.mem_map, List.mem_filter, Persistent.mk.injEq, Prod.exists,
      IndexMap.mem_entries_iff]
    constructor
    · rintro ⟨_, combatant, ⟨hget, hleaves⟩, rfl, rfl, rfl⟩
      exact ⟨combatant, hget, hleaves, rfl, rfl⟩
    · rintro ⟨combatant, hget, hleaves, rfl, rfl⟩
      exact ⟨entity, combatant, ⟨hget, hleaves⟩, rfl, rfl, rfl⟩

theorem mem_population {world : World} {entity : EntityId} {placement : Ulid} :
    (entity, placement) ∈ world.population ↔
      Keeps world.respawns world ⟨entity, placement, false⟩ := by
  rw [← mem_persistents, World.population, Multiset.mem_coe]
  simp only [List.mem_map, List.mem_filter, Prod.mk.injEq, Bool.not_eq_true']
  constructor
  · rintro ⟨⟨_, _, _⟩, ⟨hmem, rfl⟩, rfl, rfl⟩
    exact hmem
  · exact fun hmem ↦ ⟨_, ⟨hmem, rfl⟩, rfl, rfl⟩

/-- Nobody is counted twice. Assumes: nobody who fights has a record. -/
theorem nodup_population {world : World} (hmortal : Mortal world) : world.population.Nodup := by
  have hentities : (world.persistents.map Persistent.entity).Nodup := by
    rw [World.persistents, List.map_append, List.map_map, List.map_map]
    refine List.nodup_append.mpr ⟨world.creatures.nodup, ?_, fun id hrecord other hfights heq ↦ ?_⟩
    · exact world.combatants.nodup.sublist ((List.filter_sublist).map Prod.fst)
    · subst heq
      exact hmortal.apart id (((List.filter_sublist).map Prod.fst).subset hfights) hrecord
  refine Multiset.coe_nodup.mpr (List.Nodup.of_map Prod.fst ?_)
  rw [List.map_map]
  exact hentities.sublist ((List.filter_sublist).map Persistent.entity)

/-- Two populations with the same members. -/
theorem population_eq_of_keeps {world next : World} (hmortal : Mortal world) (hnext : Mortal next)
    (hkeeps : ∀ creature, Keeps next.respawns next creature ↔
      Keeps world.respawns world creature) : next.population = world.population := by
  refine (Multiset.Nodup.ext (nodup_population hnext) (nodup_population hmortal)).mpr ?_
  rintro ⟨entity, placement⟩
  rw [mem_population, mem_population, hkeeps]

section Keeps

variable {respawns : Bool} {world next : World} {creature : Persistent}

/-- Without combatants the rules do not matter. -/
theorem keeps_released (hnone : world.combatants.keys = []) (other : Bool) :
    Keeps respawns world creature ↔ Keeps other world creature := by
  refine or_congr Iff.rfl (iff_of_false ?_ ?_) <;>
  · rintro ⟨combatant, hget, -⟩
    have hmem := IndexMap.mem_keys_iff.mpr ⟨combatant, hget⟩
    rw [hnone] at hmem
    exact absurd hmem List.not_mem_nil

theorem keeps_rules (hrules : next.lifecycle = world.lifecycle ∨ next.combatants.keys = []) :
    Keeps next.respawns next creature ↔ Keeps world.respawns next creature := by
  rcases hrules with hsame | hnone
  · rw [World.respawns, World.respawns, hsame]
  · exact keeps_released hnone _

theorem keeps_of_rel {related : Combatant → Combatant → Prop}
    (hrel : IndexMap.Rel related world.combatants next.combatants)
    (hsame : ∀ before after, related before after → after.placement = before.placement ∧
      after.entered = before.entered ∧ after.dead = before.dead)
    (hcreatures : next.creatures = world.creatures) :
    Keeps respawns next creature ↔ Keeps respawns world creature := by
  unfold Keeps
  rw [hcreatures]
  refine or_congr Iff.rfl ⟨?_, ?_⟩
  · rintro ⟨after, hafter, hkept⟩
    obtain ⟨before, hbefore, hrelated⟩ := hrel.get?_eq_some hafter
    obtain ⟨hplacement, hentered, hdead⟩ := hsame before after hrelated
    rw [hplacement, hentered, hdead] at hkept
    exact ⟨before, hbefore, hkept⟩
  · rintro ⟨before, hbefore, hkept⟩
    obtain ⟨after, hafter, hrelated⟩ := hrel.get?_eq_some' hbefore
    obtain ⟨hplacement, hentered, hdead⟩ := hsame before after hrelated
    refine ⟨after, hafter, ?_⟩
    rw [hplacement, hentered, hdead]
    exact hkept

theorem keeps_congr (hcombatants : next.combatants = world.combatants)
    (hcreatures : next.creatures = world.creatures) :
    Keeps respawns next creature ↔ Keeps respawns world creature := by
  unfold Keeps
  rw [hcombatants, hcreatures]

variable {id : EntityId}

/-- A record joins under an entity without one. -/
theorem keeps_insertCreature {record : CreatureState} (hfresh : id ∉ world.creatures.keys)
    (hcombatants : next.combatants = world.combatants)
    (hcreatures : next.creatures = world.creatures.insert id record) :
    Keeps respawns next creature ↔
      Keeps respawns world creature ∨ creature = ⟨id, record.placement, record.dead⟩ := by
  obtain ⟨entity, placement, dead⟩ := creature
  unfold Keeps
  rw [hcombatants, hcreatures, IndexMap.get?_insert, or_right_comm]
  refine or_congr ?_ Iff.rfl
  simp only [Persistent.mk.injEq]
  by_cases hentity : entity = id
  · subst hentity
    rw [if_pos rfl, IndexMap.get?_eq_none_iff.mpr hfresh]
    simp [eq_comm]
  · simp [hentity]

theorem keeps_strip {entities : GenerationalArena EntityMeta} :
    Keeps respawns (strip world entities id) creature ↔
      Keeps respawns world creature ∧ creature.entity ≠ id := by
  unfold Keeps strip
  simp only [IndexMap.get?_shiftRemove]
  by_cases hentity : creature.entity = id
  · simp [hentity]
  · simp [hentity]

/-- Everybody who is kept lives in the arena. -/
theorem contains_of_keeps (hgrounded : Grounded world) (hkeeps : Keeps respawns world creature) :
    world.entities.contains creature.entity = true := by
  rcases hkeeps with ⟨record, hget, -⟩ | ⟨combatant, hget, -⟩
  · exact hgrounded.creatures _ (IndexMap.mem_keys_iff.mpr ⟨record, hget⟩)
  · exact hgrounded.combatants _ (IndexMap.mem_keys_iff.mpr ⟨combatant, hget⟩)

theorem keeps_rested (hrested : Rested world next) (hcreatures : next.creatures = world.creatures) :
    Keeps respawns next creature ↔ Keeps respawns world creature :=
  keeps_of_rel hrested.combatants
    (fun _ _ hrests ↦ ⟨hrests.placement, hrests.entered, hrests.alive⟩) hcreatures

theorem despawnTracked_entities {facts : Bool × TransitionFacts}
    (hdespawn : despawnTracked world id = .ok (facts, next)) :
    next.entities = (world.entities.remove id).2 := by
  unfold despawnTracked at hdespawn
  split at hdespawn
  · next entities hremove =>
    cases hdespawn
    obtain ⟨-, hsame, -⟩ | ⟨_, _, -, -, -, hsome, -⟩ :=
      GenerationalArena.remove_cases world.entities id
    · exact hsame.symm
    · rw [hremove] at hsome
      cases hsome
  · next value entities hremove =>
    obtain ⟨⟨_, settled⟩, hsettle, hnext⟩ := bind_eq_ok_iff.mp hdespawn
    cases hnext
    rw [hremove]
    exact (settleDespawn_controlled hsettle).1.entities

theorem keeps_despawn (hcoherent : Coherent world) (hgrounded : Grounded world)
    {facts : Bool × TransitionFacts} (hdespawn : despawnTracked world id = .ok (facts, next)) :
    Keeps next.respawns next creature ↔
      Keeps world.respawns world creature ∧ creature.entity ≠ id := by
  rw [keeps_rules (despawnTracked_lifecycle hdespawn)]
  have hentities := despawnTracked_entities hdespawn
  obtain rfl | ⟨settled, hrested, hcontrolled, rfl⟩ := despawnTracked_rested hcoherent hdespawn
  · refine ⟨fun hkeeps ↦ ⟨hkeeps, ?_⟩, And.left⟩
    have hlive := contains_of_keeps hgrounded hkeeps
    rw [hentities] at hlive
    exact ((GenerationalArena.contains_remove_iff hgrounded.arena).mp hlive).2
  · have hsettled : Keeps world.respawns settled creature ↔
        Keeps world.respawns (strip world (world.entities.remove id).2 id) creature :=
      keeps_rested hrested hcontrolled.creatures
    exact (keeps_congr rfl rfl).trans (hsettled.trans keeps_strip)

theorem keeps_enter (mode : EncounterMode) {entity : EntityId} {record : CreatureState}
    {combatant : Combatant} (hfound : world.creatures.get? entity = some record)
    (hidle : entity ∉ world.combatants.keys) (hlives : record.dead = false)
    (hplacement : combatant.placement = record.placement) (halive : combatant.dead = false)
    (hentered : combatant.entered = true) : Keeps respawns (publish mode
      { world with creatures := world.creatures.shiftRemove entity } entity combatant) creature ↔
        Keeps respawns world creature := by
  unfold Keeps publish
  simp only [IndexMap.get?_shiftRemove, IndexMap.get?_insert]
  by_cases hentity : creature.entity = entity
  · rw [hentity, hfound, IndexMap.get?_eq_none_iff.mpr hidle]
    simp [hlives, hplacement, halive, hentered]
  · simp [hentity]

theorem keeps_spawned (mode : EncounterMode) {combatant : Combatant}
    (hidle : id ∉ world.combatants.keys) (halive : combatant.dead = false)
    (hentered : combatant.entered = false) :
    Keeps respawns (publish mode world id combatant) creature ↔ Keeps respawns world creature ∨
      respawns = false ∧ creature = ⟨id, combatant.placement, false⟩ := by
  obtain ⟨entity, placement, dead⟩ := creature
  unfold Keeps publish
  rw [or_assoc]
  simp only [IndexMap.get?_insert, Persistent.mk.injEq]
  refine or_congr Iff.rfl ?_
  by_cases hentity : entity = id
  · subst hentity
    rw [if_pos rfl, IndexMap.get?_eq_none_iff.mpr hidle]
    constructor
    · rintro ⟨found, hfound, hleaves, rfl, rfl⟩
      cases hfound
      rw [hentered, Bool.false_or, Bool.not_eq_true'] at hleaves
      exact Or.inr ⟨hleaves, rfl, rfl, halive⟩
    · rintro (⟨_, hnone, -⟩ | ⟨hkeeps, -, rfl, rfl⟩)
      · cases hnone
      · exact ⟨combatant, rfl, by rw [hentered, hkeeps]; rfl, rfl, halive⟩
  · simp [hentity]

theorem keeps_harmed (hharmed : Harmed world next) (hcreatures : next.creatures = world.creatures)
    (hmortal : Mortal world) {entity : EntityId} {placement : Ulid} :
    Keeps respawns next ⟨entity, placement, false⟩ ↔
      Keeps respawns world ⟨entity, placement, false⟩ ∧ ¬Dies world next entity := by
  unfold Keeps
  rw [hcreatures, or_and_right]
  refine or_congr ⟨fun hkept ↦ ⟨hkept, ?_⟩, And.left⟩ ⟨?_, ?_⟩
  · rintro ⟨before, _, hbefore, -⟩
    obtain ⟨record, hget, -⟩ := hkept
    exact hmortal.no_record hbefore hget
  · rintro ⟨after, hafter, hleaves, hplacement, halive⟩
    obtain ⟨before, hbefore, hendures⟩ := hharmed.combatants.get?_eq_some hafter
    refine ⟨⟨before, hbefore, hendures.entered ▸ hleaves, hendures.placement ▸ hplacement, ?_⟩, ?_⟩
    · refine Bool.eq_false_iff.mpr fun hdead ↦ ?_
      exact Bool.noConfusion ((hendures.dead hdead).1.symm.trans halive)
    · rw [hmortal.dies_iff hharmed hbefore hafter]
      exact fun hdies ↦ Bool.noConfusion (hdies.2.symm.trans halive)
  · rintro ⟨⟨before, hbefore, hleaves, hplacement, halive⟩, hlives⟩
    obtain ⟨after, hafter, hendures⟩ := hharmed.combatants.get?_eq_some' hbefore
    refine ⟨after, hafter, hendures.entered.symm ▸ hleaves, hendures.placement.trans hplacement, ?_⟩
    rw [hmortal.dies_iff hharmed hbefore hafter] at hlives
    exact Bool.eq_false_iff.mpr fun hdead ↦ hlives ⟨halive, hdead⟩

theorem keeps_placement_harmed (hharmed : Harmed world next)
    (hcreatures : next.creatures = world.creatures) (hkeeps : Keeps respawns next creature) :
    ∃ dead, Keeps respawns world ⟨creature.entity, creature.placement, dead⟩ := by
  rcases hkeeps with ⟨record, hget, hplacement, -⟩ | ⟨after, hafter, hleaves, hplacement, -⟩
  · exact ⟨record.dead, Or.inl ⟨record, hcreatures ▸ hget, hplacement, rfl⟩⟩
  · obtain ⟨before, hbefore, hendures⟩ := hharmed.combatants.get?_eq_some hafter
    exact ⟨before.dead, Or.inr ⟨before, hbefore, hendures.entered ▸ hleaves,
      hendures.placement ▸ hplacement, rfl⟩⟩

end Keeps

/-! ### Publication -/

/-- The placements of the participants that spawn, in authored order. -/
def spawning (sources : List (Pending × Source)) : List Ulid :=
  (sources.filter fun entry ↦ entry.2 = .spawn).map fun entry ↦ entry.1.placement

section Publication

variable {world next : World} {mode : EncounterMode}

theorem spawning_keyed {sources rolled : List (Pending × Source)}
    (hkeyed : List.Forall₂ Keyed sources rolled) : spawning rolled = spawning sources := by
  unfold spawning
  induction hkeyed with
  | nil => rfl
  | @cons before after _ _ hentry _ ih =>
    obtain ⟨hsource, initiative, hmember⟩ := hentry
    rw [List.filter_cons, List.filter_cons, hsource]
    split_ifs
    · rw [List.map_cons, List.map_cons, ih, hmember]
    · exact ih

theorem spawn_fresh (hgrounded : Grounded world) {data : EntityMeta} {id : EntityId}
    {spawned : World} (hspawn : world.spawn data = some (id, spawned)) :
    world.entities.contains id = false ∧ id ∉ world.creatures.keys ∧ id ∉ world.combatants.keys ∧
      spawned.creatures = world.creatures ∧ spawned.combatants = world.combatants ∧
      spawned.combat = world.combat ∧ ∀ other, spawned.entities.contains other = true ↔
        world.entities.contains other = true ∨ other = id := by
  obtain ⟨⟨minted, entities⟩, hinsert, hnext⟩ := Option.map_eq_some_iff.mp hspawn
  simp only [Prod.mk.injEq] at hnext
  obtain ⟨rfl, rfl⟩ := hnext
  have hfresh := GenerationalArena.not_contains_of_insert hgrounded.arena hinsert
  refine ⟨hfresh, fun hmem ↦ ?_, fun hmem ↦ ?_, rfl, rfl, rfl, fun other ↦ ?_⟩
  · exact absurd ((hgrounded.creatures minted hmem).symm.trans hfresh) (by decide)
  · exact absurd ((hgrounded.combatants minted hmem).symm.trans hfresh) (by decide)
  · exact (GenerationalArena.contains_insert_iff hgrounded.arena hinsert).trans or_comm

theorem keeps_published (respawns : Bool) {entry : Pending × Source} (hmortal : Mortal world)
    (hgrounded : Grounded world) (hadmitted : Admitted world entry)
    (hpublished : Published mode world entry next) :
    (entry.2 ≠ .spawn ∧ next.entities = world.entities ∧ ∀ creature,
      Keeps respawns next creature ↔ Keeps respawns world creature) ∨
    entry.2 = .spawn ∧ ∃ id, world.entities.contains id = false ∧
      (∀ other, next.entities.contains other = true ↔
        world.entities.contains other = true ∨ other = id) ∧
      ∀ creature, Keeps respawns next creature ↔ Keeps respawns world creature ∨
        respawns = false ∧ creature = ⟨id, entry.1.placement, false⟩ := by
  cases hpublished with
  | skip hsource =>
    exact Or.inl ⟨by rw [hsource]; decide, rfl, fun _ ↦ Iff.rfl⟩
  | @enter entity record combatant hsource hfound hplacement _ _ halive hentered =>
    refine Or.inl ⟨by rw [hsource]; exact Source.noConfusion, rfl, fun creature ↦ ?_⟩
    refine keeps_enter mode hfound (fun hfights ↦ ?_)
      (hadmitted.enters entity record hsource hfound) hplacement halive hentered
    exact hmortal.apart entity hfights (IndexMap.mem_keys_iff.mpr ⟨record, hfound⟩)
  | @spawn id spawned combatant hsource hspawn hplacement _ _ halive hentered =>
    obtain ⟨hfresh, -, hidle, hcreatures, hcombatants, -, hlive⟩ := spawn_fresh hgrounded hspawn
    refine Or.inr ⟨hsource, id, hfresh, hlive, fun creature ↦ ?_⟩
    rw [← hplacement, keeps_spawned mode (hcombatants ▸ hidle) halive hentered,
      keeps_congr hcombatants hcreatures]

/-- What publishing all participants does to what is kept: those that spawn join, each under a fresh
entity. -/
theorem keeps_publishMembers {respawns : Bool} {definition : CombatDefinition}
    {rolled : List (Pending × Source)} (hmortal : Mortal world) (hgrounded : Grounded world)
    (hadmitted : ∀ entry ∈ rolled, Admitted world entry)
    (hpublish : Result.foldlM (publishMember mode definition) world rolled = .ok next) :
    ∃ spawned : List (EntityId × Ulid), spawned.map Prod.snd = spawning rolled ∧
      (spawned.map Prod.fst).Nodup ∧
      (∀ creature ∈ spawned, world.entities.contains creature.1 = false) ∧
      ∀ creature, Keeps respawns next creature ↔ Keeps respawns world creature ∨
        respawns = false ∧ creature.dead = false ∧
          (creature.entity, creature.placement) ∈ spawned := by
  induction rolled generalizing world with
  | nil =>
    cases hpublish
    refine ⟨[], rfl, List.nodup_nil, fun _ hnone ↦ absurd hnone List.not_mem_nil, fun _ ↦ ?_⟩
    simp
  | cons entry rest ih =>
    obtain ⟨middle, hmiddle, hrest⟩ := bind_eq_ok_iff.mp hpublish
    have hcase := published_of_publishMember hmiddle
    have hentry := hadmitted entry (List.mem_cons_self ..)
    obtain ⟨spawned, hplacements, hnodup, hfresh, hkeeps⟩ := ih
      (hmortal.published hgrounded hentry hcase) (hgrounded.publishMember hmiddle)
      (fun other hother ↦ (hadmitted other (List.mem_cons_of_mem _ hother)).of_subset
        hcase.records) hrest
    rcases keeps_published respawns hmortal hgrounded hentry hcase with
      ⟨hsource, hentities, hsame⟩ | ⟨hsource, id, hunused, hlive, hjoins⟩
    · refine ⟨spawned, ?_, hnodup, fun creature hmem ↦ hentities ▸ hfresh creature hmem,
        fun creature ↦ ?_⟩
      · rw [hplacements, spawning, spawning, List.filter_cons_of_neg (by simpa using hsource)]
      · rw [hkeeps, hsame]
    · have hlater (creature : EntityId × Ulid) (hmem : creature ∈ spawned) :
          world.entities.contains creature.1 = false ∧ creature.1 ≠ id := by
        have hunknown := hfresh creature hmem
        rw [← Bool.not_eq_true, hlive, not_or] at hunknown
        exact ⟨Bool.eq_false_iff.mpr hunknown.1, hunknown.2⟩
      refine ⟨(id, entry.1.placement) :: spawned, ?_, ?_, fun creature hmem ↦ ?_,
        fun creature ↦ ?_⟩
      · rw [List.map_cons, hplacements, spawning, spawning,
          List.filter_cons_of_pos (by simpa using hsource), List.map_cons]
      · rw [List.map_cons, List.nodup_cons]
        refine ⟨fun hmem ↦ ?_, hnodup⟩
        obtain ⟨creature, hcreature, heq⟩ := List.mem_map.mp hmem
        exact (hlater creature hcreature).2 heq
      · rcases List.mem_cons.mp hmem with rfl | hold
        · exact hunused
        · exact (hlater creature hold).1
      · obtain ⟨entity, placement, dead⟩ := creature
        rw [hkeeps, hjoins, or_assoc, List.mem_cons]
        simp only [Persistent.mk.injEq, Prod.mk.injEq]
        tauto

end Publication

/-! ### Operations -/

section Operations

variable {world next : World}

theorem keeps_register (hgrounded : Grounded world) {spec : CreatureSpec} {id : EntityId}
    (hregister : registerCreature world spec = .ok (id, next)) :
    placementHeld world spec.placement.id ≠ true ∧ world.entities.contains id = false ∧
      next.combat = world.combat ∧ ∀ respawns creature, Keeps respawns next creature ↔
        Keeps respawns world creature ∨ creature = ⟨id, spec.placement.id, false⟩ := by
  obtain ⟨spawned, record, hspawn, ⟨hpositive, -⟩, ⟨hplacement, hheld⟩, rfl⟩ :=
    registerCreature_record hregister
  obtain ⟨hfresh, hbare, -, hcreatures, hcombatants, hcombat, -⟩ := spawn_fresh hgrounded hspawn
  have halive : record.dead = false := decide_eq_false hpositive.ne'
  refine ⟨hheld, hfresh, hcombat, fun respawns creature ↦ ?_⟩
  rw [← hplacement, ← halive, ← keeps_congr hcombatants hcreatures]
  rw [← hcreatures] at hbare
  exact keeps_insertCreature hbare rfl rfl

theorem keeps_requestMode {mode : EncounterMode} (hrequest : requestMode world mode = .ok next)
    (creature : Persistent) :
    Keeps next.respawns next creature ↔ Keeps world.respawns world creature := by
  have hpassed : Passed False world next := requestMode_passed hrequest
  simp only [requestMode, bind_ok_iff, pure_ok_iff, Result.okOr_eq_ok_iff] at hrequest
  obtain ⟨combat, -, _, -, rfl⟩ := hrequest
  exact (keeps_rules (Or.inl hpassed.lifecycle)).trans (keeps_congr rfl rfl)

/-- The record a combatant leaves behind, if it leaves one. Assumes: it is dead at health zero. -/
theorem exitRecord_keeps {combatant : Combatant} {ruleset : Ulid} {round : ℕ}
    {lifecycle : Lifecycle} {release : Bool} (hdead : combatant.dead = true ↔ combatant.health = 0)
    {placement : Ulid} {dead : Bool} :
    (∃ record, exitRecord combatant ruleset round lifecycle release = some record ∧
      record.placement = placement ∧ record.dead = dead) ↔
        (combatant.entered || !lifecycle.respawns) = true ∧ combatant.placement = placement ∧
          combatant.dead = dead := by
  have hhealth : decide (combatant.health = 0) = combatant.dead := by
    rw [Bool.eq_iff_iff, decide_eq_true_iff, hdead]
  unfold exitRecord
  split_ifs with hleaves
  · constructor
    · rintro ⟨_, hrecord, rfl, rfl⟩
      cases hrecord
      exact ⟨hleaves, rfl, hhealth.symm⟩
    · rintro ⟨-, rfl, rfl⟩
      exact ⟨_, rfl, rfl, hhealth⟩
  · simp [hleaves]

/-- A release moves every creature from its combatant to its record. -/
theorem keeps_endEncounter (hmortal : Mortal world) {summary : EncounterSummary}
    (hend : endEncounter world = .ok (summary, next)) (creature : Persistent) :
    Keeps next.respawns next creature ↔ Keeps world.respawns world creature := by
  simp only [endEncounter, bind_ok_iff, pure_ok_iff, Result.okOr_eq_ok_iff, Prod.mk.injEq] at hend
  obtain ⟨combat, hcombat, -, rfl⟩ := hend
  have hrespawns : world.respawns = combat.lifecycle.respawns := by
    rw [World.respawns, World.lifecycle, hcombat]
    rfl
  have hgone : (world.combatants.entries.foldl (release combat) world).combatants.keys = [] := by
    rw [keys_foldl_release, List.filter_eq_nil_iff]
    intro key hkey
    simpa [IndexMap.keys] using hkey
  have hrecord : (world.combatants.entries.foldl (release combat) world).creatures.get?
      creature.entity = ((world.combatants.get? creature.entity).bind fun combatant ↦
        exitRecord combatant combat.definition.ruleset combat.round combat.lifecycle true).or
          (world.creatures.get? creature.entity) :=
    get?_foldl_release combat world.combatants.entries world.combatants.nodup world creature.entity
  refine Iff.trans (or_iff_left ?_) ?_
  · rintro ⟨combatant, hget, -⟩
    have hmem := IndexMap.mem_keys_iff.mpr ⟨combatant, hget⟩
    exact absurd (hgone ▸ hmem) List.not_mem_nil
  · change (∃ record, (world.combatants.entries.foldl (release combat) world).creatures.get?
      creature.entity = some record ∧ _) ↔ _
    unfold Keeps
    rw [hrecord, hrespawns]
    cases hget : world.combatants.get? creature.entity with
    | none => simp
    | some combatant =>
      have hbare : world.creatures.get? creature.entity = none :=
        Option.eq_none_iff_forall_ne_some.mpr fun _ hfound ↦ hmortal.no_record hget hfound
      have hdead := (hmortal.combatants creature.entity combatant hget).1
      rw [hbare, Option.or_none, Option.bind_some, exitRecord_keeps hdead]
      simp

theorem keeps_transfer {source destination left entered : World} {entity moved : EntityId}
    (hcoherent : Coherent source) (hsource : Grounded source) (hdestination : Grounded destination)
    (htransfer : transferEntity source destination entity = .ok (moved, left, entered)) :
    (∀ creature, Keeps left.respawns left creature ↔
      Keeps source.respawns source creature ∧ creature.entity ≠ entity) ∧
    destination.entities.contains moved = false ∧ entered.combat = destination.combat ∧
    (∀ placement dead, Keeps source.respawns source ⟨entity, placement, dead⟩ →
      placementHeld destination placement ≠ true) ∧
    ∀ respawns creature, Keeps respawns entered creature ↔
      Keeps respawns destination creature ∨ creature.entity = moved ∧
        Keeps source.respawns source { creature with entity := entity } := by
  obtain ⟨hpreflight, ⟨_, hremoved⟩, data, spawned, hspawn, rfl⟩ := transferEntity_cases htransfer
  obtain ⟨hfresh, hbare, -, hcreatures, hcombatants, hcombat, -⟩ := spawn_fresh hdestination hspawn
  simp only [transferPreflight, bind_ok_iff, Result.failIf_eq_ok_iff] at hpreflight
  obtain ⟨_, -, _, -, _, -, _, -, _, hfights, _, -, _, -, hheld⟩ := hpreflight
  have hidle (respawns : Bool) (placement : Ulid) (dead : Bool) :
      Keeps respawns source ⟨entity, placement, dead⟩ ↔ ∃ record,
        source.creatures.get? entity = some record ∧ record.placement = placement ∧
          record.dead = dead := by
    refine or_iff_left ?_
    rintro ⟨combatant, hget, -⟩
    exact hfights (IndexMap.contains_eq_true_iff.mpr (IndexMap.mem_keys_iff.mpr ⟨_, hget⟩))
  refine ⟨fun creature ↦ keeps_despawn hcoherent hsource hremoved, hfresh, hcombat,
    fun placement dead hkeeps ↦ ?_, fun respawns creature ↦ ?_⟩
  · obtain ⟨record, hget, rfl, -⟩ := (hidle _ _ _).mp hkeeps
    rw [hget] at hheld
    exact Result.failIf_eq_ok_iff.mp hheld
  · obtain ⟨other, placement, dead⟩ := creature
    rw [hidle, ← keeps_congr hcombatants hcreatures]
    cases hget : source.creatures.get? entity with
    | none =>
      refine (or_iff_left ?_).symm
      rintro ⟨-, _, hnone, -⟩
      cases hnone
    | some record =>
      rw [← hcreatures] at hbare
      refine Iff.trans (keeps_insertCreature hbare rfl rfl) (or_congr Iff.rfl ?_)
      simp [eq_comm]

end Operations

end Crpg.Sim
