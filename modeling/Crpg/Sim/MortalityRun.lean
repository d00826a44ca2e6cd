import Crpg.Lib.Collect
import Crpg.Sim.Mortality

/-!
# Health and death over runs

`Mortal` is the invariant of the reachable worlds: a combatant is dead exactly at health zero, no
health exceeds its maximum, and the queue holds one death of every dead combatant and none of a
living one.

A spawned combatant starts whole and an entering one at the health of its record (`Published`), so
the invariant holds of every run, and `health_and_death` reads the rest off it.
-/

set_option autoImplicit false

namespace Crpg.Sim

open Crpg.Core Crpg.Lib Crpg.Rules Crpg.Data
open Result (bind_eq bind_eq_ok_iff bind_ok_iff expect_eq_ok_iff failIf_eq_ok_iff foldlM_preserves
  pure_eq pure_ok_iff unwrap_eq_ok_iff)
open IndexMap (mem_entries_iff mem_keys_iff mem_keys_insert)

/-! ### Entry -/

theorem health_pos_of_readCreatureStats {ruleset : Ruleset} {creature : Creature}
    {stats : CreatureStats} (hread : readCreatureStats ruleset creature = .ok stats) :
    0 < stats.health := by
  simp only [readCreatureStats, bind_eq, pure_eq, bind_eq_ok_iff, expect_eq_ok_iff, Result.ok.injEq]
    at hread
  obtain ⟨scan, hscan, health, hhealth, rfl⟩ := hread
  refine foldlM_preserves
    (motive := fun scan : StatScan ↦ ∀ health, scan.health = some health → 0 < health) ?_
    (fun _ hnone ↦ by cases hnone) hscan health hhealth
  intro declaration _ state after hstate hafter
  unfold scanStat at hafter
  split_ifs at hafter
  · cases hafter
    exact hstate
  · split at hafter
    · simp only [scanInt, bind_eq, pure_eq, bind_eq_ok_iff, failIf_eq_ok_iff] at hafter
      obtain ⟨authored, -, _, -, _, -, hafter⟩ := hafter
      split_ifs at hafter with hname
      · simp only [bind_eq_ok_iff, failIf_eq_ok_iff, Result.ok.injEq] at hafter
        obtain ⟨_, hpositive, _, -, rfl⟩ := hafter
        intro value hvalue
        rw [← Option.some.inj hvalue]
        omega
      · cases hafter
        exact hstate
    · obtain ⟨value, -, hnext⟩ := bind_eq_ok_iff.mp hafter
      cases hnext
      exact hstate
    · cases hafter
      exact hstate

variable {world : World} {spec : EncounterSpec} {mode : EncounterMode} {prepared : Prepared}

theorem pending_of_prepare (hprepare : prepare world spec mode = .ok prepared) :
    prepared.lifecycle = lifecycleOf spec.encounter spec.ruleset ∧
    ∃ placements, resolvePlacements spec = .ok placements ∧
      List.Forall₂ (fun resolved member ↦ readPending spec resolved = .ok member) placements
        prepared.pending := by
  simp only [prepare, bind_ok_iff, pure_ok_iff] at hprepare
  obtain ⟨_, -, _, -, placements, hplacements, _, -, pending, hpending, _, -, _, -, _, -, _, -, _,
    -, _, -, _, -, _, -, _, -, _, -, rfl⟩ := hprepare
  exact ⟨rfl, placements, hplacements, Result.mapM_eq_ok_iff.mp hpending⟩

/-- What a participant's source says: it spawns with its authored health when nothing is kept of it,
enters from a living record of its placement, or is skipped for a dead one. -/
inductive Sourced (world : World) (respawns : Bool) (member : Pending) : Pending × Source → Prop
  | spawn (unkept : respawns = true ∨ ∀ id record, world.creatures.get? id = some record →
      record.placement ≠ member.placement) : Sourced world respawns member (member, .spawn)
  | enter {entity : EntityId} {record : CreatureState} {entering : Pending}
      (keeps : respawns = false) (found : world.creatures.get? entity = some record)
      (alive : record.dead = false) (own : record.placement = member.placement)
      (placement : entering.placement = member.placement) :
      Sourced world respawns member (entering, .enter entity)
  | skip {entity : EntityId} {record : CreatureState} (keeps : respawns = false)
      (found : world.creatures.get? entity = some record) (dead : record.dead = true)
      (own : record.placement = member.placement) : Sourced world respawns member (member, .skip)

variable {entry : Pending × Source}

theorem sourced_of_sourceOf {member : Pending}
    (hsource : sourceOf world prepared member = .ok entry) :
    Sourced world prepared.lifecycle.respawns member entry := by
  unfold sourceOf at hsource
  split_ifs at hsource with hrespawns
  · cases hsource
    exact .spawn (Or.inl hrespawns)
  · rw [Bool.not_eq_true] at hrespawns
    split at hsource
    · next hnone =>
      cases hsource
      refine .spawn (Or.inr fun id record hget hsame ↦ ?_)
      have habsent := List.find?_eq_none.mp hnone (id, record) (mem_entries_iff.mpr hget)
      exact habsent (decide_eq_true hsame)
    · next entity record hfind =>
      have hget := mem_entries_iff.mp (List.mem_of_find?_eq_some hfind)
      have hown : record.placement = member.placement := by
        simpa using List.find?_some hfind
      split_ifs at hsource with hdead
      · cases hsource
        exact .skip hrespawns hget hdead hown
      · obtain ⟨_, -, hentry⟩ := bind_eq_ok_iff.mp hsource
        cases hentry
        exact .enter hrespawns hget (Bool.eq_false_iff.mpr hdead) hown rfl

/-- What a roll leaves of a participant: all but its key. -/
def Keyed (before after : Pending × Source) : Prop :=
  after.2 = before.2 ∧ ∃ initiative, after.1 = { before.1 with initiative := initiative }

theorem keyed_refl (entry : Pending × Source) : Keyed entry entry :=
  ⟨rfl, entry.1.initiative, rfl⟩

variable {next : World} {sources : List (Pending × Source)}

theorem rollInitiative_keyed {definition : CombatDefinition} {rolled : List (Pending × Source)}
    (hroll : rollInitiative world definition sources = .ok (next, rolled)) :
    List.Forall₂ Keyed sources rolled := by
  unfold rollInitiative at hroll
  split at hroll
  · cases hroll
    exact List.forall₂_same.mpr fun entry _ ↦ keyed_refl entry
  · next rule _ =>
    simp only [bind_ok_iff, pure_ok_iff, Prod.mk.injEq] at hroll
    obtain ⟨pipeline, -, folded, hfold, -, rfl⟩ := hroll
    -- The fold appends one keyed participant for each one it reads.
    have hfolded (state final : (Interners × DeterministicRng) × List (Pending × Source))
        (hstate : Result.foldlM (rollMember pipeline.1 definition.healthStat rule) state sources =
          .ok final) : ∃ added, final.2 = state.2 ++ added ∧ List.Forall₂ Keyed sources added := by
      clear hfold
      induction sources generalizing state with
      | nil =>
        cases hstate
        exact ⟨[], (List.append_nil _).symm, .nil⟩
      | cons entry rest ih =>
        obtain ⟨middle, hmiddle, hrest⟩ := bind_eq_ok_iff.mp hstate
        obtain ⟨added, hadded, hkeyed⟩ := ih middle hrest
        have hone : ∃ keyed, middle.2 = state.2 ++ [keyed] ∧ Keyed entry keyed := by
          unfold rollMember at hmiddle
          split_ifs at hmiddle
          · cases hmiddle
            exact ⟨entry, rfl, keyed_refl entry⟩
          · simp only [bind_ok_iff, pure_ok_iff] at hmiddle
            obtain ⟨_, -, _, -, _, -, _, -, rfl⟩ := hmiddle
            exact ⟨_, rfl, rfl, _, rfl⟩
        obtain ⟨keyed, hkept, hone⟩ := hone
        refine ⟨keyed :: added, ?_, .cons hone hkeyed⟩
        rw [hadded, hkept, List.append_assoc, List.singleton_append]
    obtain ⟨added, hadded, hkeyed⟩ := hfolded _ folded hfold
    rw [hadded, List.nil_append]
    exact hkeyed

inductive Published (mode : EncounterMode) (world : World) (entry : Pending × Source) :
    World → Prop
  | skip (source : entry.2 = .skip) : Published mode world entry world
  | enter {entity : EntityId} {record : CreatureState} {combatant : Combatant}
      (source : entry.2 = .enter entity) (found : world.creatures.get? entity = some record)
      (placement : combatant.placement = record.placement)
      (health : combatant.health = record.health)
      (maxHealth : combatant.maxHealth = record.maxHealth) (alive : combatant.dead = false)
      (entered : combatant.entered = true) :
      Published mode world entry
        (publish mode { world with creatures := world.creatures.shiftRemove entity } entity
          combatant)
  | spawn {id : EntityId} {spawned : World} {combatant : Combatant} (source : entry.2 = .spawn)
      (minted : world.spawn {} = some (id, spawned))
      (placement : combatant.placement = entry.1.placement)
      (health : combatant.health = entry.1.health)
      (maxHealth : combatant.maxHealth = entry.1.health) (alive : combatant.dead = false)
      (entered : combatant.entered = false) :
      Published mode world entry (publish mode spawned id combatant)

theorem published_of_publishMember {definition : CombatDefinition}
    (hpublish : publishMember mode definition world entry = .ok next) :
    Published mode world entry next := by
  unfold publishMember at hpublish
  split at hpublish
  · next hsource =>
    cases hpublish
    exact .skip hsource
  · next entity hsource =>
    simp only [bind_ok_iff, pure_ok_iff, expect_eq_ok_iff] at hpublish
    obtain ⟨record, hget, entered, henter, rfl⟩ := hpublish
    unfold enterCombatant at henter
    split at henter
    · cases henter
    · cases henter
      exact .enter hsource hget rfl rfl rfl rfl rfl
  · next hsource =>
    simp only [freshCombatant, bind_ok_iff, pure_ok_iff, expect_eq_ok_iff] at hpublish
    obtain ⟨⟨id, spawned⟩, hspawn, combatant, ⟨_, -, _, -, rfl⟩, rfl⟩ := hpublish
    exact .spawn hsource hspawn rfl rfl rfl rfl rfl

/-- A published encounter: its participants' sources, their keys and their publication, and the
first turn. -/
structure Started (world : World) (spec : EncounterSpec) (mode : EncounterMode) (next : World) :
    Prop where
  idle : world.combat = none
  steps : ∃ (prepared : Prepared) (sources rolled : List (Pending × Source))
    (rng : DeterministicRng) (published : World), prepare world spec mode = .ok prepared ∧
    Result.mapM (sourceOf world prepared) prepared.pending = .ok sources ∧
    List.Forall₂ Keyed sources rolled ∧
    Result.foldlM (publishMember mode prepared.definition) { world with rng := rng } rolled =
      .ok published ∧
    Stood published.combatants next.combatants ∧ next.events = published.events ∧
    next.creatures = published.creatures ∧ next.entities = published.entities ∧
    ∃ combat, next.combat = some combat ∧ combat.lifecycle = prepared.lifecycle

theorem started_of_start {facts : StartFacts}
    (hstart : startEncounterInModeTracked world spec mode = .ok (facts, next)) :
    Started world spec mode next := by
  simp only [startEncounterInModeTracked, bind_ok_iff, pure_ok_iff, Prod.mk.injEq] at hstart
  obtain ⟨prepared, hprepare, sources, hsources, _, -, ⟨rolledWorld, rolled⟩, hroll, published,
    hpublish, ⟨active, first⟩, hfirst, -, rfl⟩ := hstart
  obtain ⟨rng, rfl⟩ := rollInitiative_frame hroll
  have hturn : Stood published.combatants first.combatants ∧ first.events = published.events ∧
      first.creatures = published.creatures ∧ first.entities = published.entities := by
    unfold firstTurn at hfirst
    split at hfirst
    · cases hfirst
      exact ⟨stood_refl _, rfl, rfl, rfl⟩
    · split at hfirst
      · cases hfirst
        exact ⟨stood_refl _, rfl, rfl, rfl⟩
      · next head _ =>
        obtain ⟨_, -, hnext⟩ := bind_eq_ok_iff.mp hfirst
        cases hnext
        exact ⟨refreshOne_stood published head .turnStart, rfl, rfl, rfl⟩
  obtain ⟨hstood, hevents, hcreatures, hentities⟩ := hturn
  exact ⟨combat_eq_none_of_prepare hprepare, prepared, sources, rolled, rng, published, hprepare,
    hsources, rollInitiative_keyed hroll, hpublish, hstood, hevents, hcreatures, hentities, _, rfl,
    rfl⟩

structure Admitted (world : World) (entry : Pending × Source) : Prop where
  enters : ∀ entity record, entry.2 = .enter entity → world.creatures.get? entity = some record →
    record.dead = false
  spawns : entry.2 = .spawn → 0 < entry.1.health

theorem Admitted.of_subset (hadmitted : Admitted world entry) (hrecords : ∀ id record,
      next.creatures.get? id = some record → world.creatures.get? id = some record) :
    Admitted next entry :=
  ⟨fun entity record hsource hget ↦
    hadmitted.enters entity record hsource (hrecords entity record hget), hadmitted.spawns⟩

theorem sourced_of_mapM
    (hsources : Result.mapM (sourceOf world prepared) prepared.pending = .ok sources) :
    List.Forall₂ (Sourced world prepared.lifecycle.respawns) prepared.pending sources :=
  (Result.mapM_eq_ok_iff.mp hsources).imp fun _ _ ↦ sourced_of_sourceOf

theorem admitted_of_rolled {rolled : List (Pending × Source)}
    (hprepare : prepare world spec mode = .ok prepared)
    (hsources : Result.mapM (sourceOf world prepared) prepared.pending = .ok sources)
    (hkeyed : List.Forall₂ Keyed sources rolled) (hentry : entry ∈ rolled) :
    Admitted world entry := by
  obtain ⟨-, placements, -, hread⟩ := pending_of_prepare hprepare
  obtain ⟨source, hsource, hkept, initiative, hmember⟩ := exists_of_forall₂ hkeyed hentry
  obtain ⟨member, hmem, hcase⟩ := exists_of_forall₂ (sourced_of_mapM hsources) hsource
  obtain ⟨resolved, -, hpending⟩ := exists_of_forall₂ hread hmem
  refine ⟨fun entity record henters hget ↦ ?_, fun hspawns ↦ ?_⟩
  · rw [hkept] at henters
    cases hcase with
    | spawn _ => cases henters
    | skip _ _ _ _ => cases henters
    | enter _ hfound halive _ _ =>
      cases henters
      rw [hfound, Option.some.injEq] at hget
      exact hget ▸ halive
  · rw [hkept] at hspawns
    rw [hmember]
    cases hcase with
    | enter _ _ _ _ _ => cases hspawns
    | skip _ _ _ _ => cases hspawns
    | spawn _ =>
      simp only [readPending, bind_ok_iff, pure_ok_iff] at hpending
      obtain ⟨_, -, stats, hstats, rfl⟩ := hpending
      exact health_pos_of_readCreatureStats hstats

theorem Published.records (hpublished : Published mode world entry next) (id : EntityId)
    (record : CreatureState) (hget : next.creatures.get? id = some record) :
    world.creatures.get? id = some record := by
  cases hpublished with
  | skip _ => exact hget
  | @enter entity _ _ _ _ _ _ _ _ _ =>
    change (world.creatures.shiftRemove entity).get? id = some record at hget
    rw [IndexMap.get?_shiftRemove] at hget
    split_ifs at hget
    exact hget
  | spawn _ hspawn _ _ _ _ _ =>
    obtain ⟨_, _, rfl⟩ := spawn_frame hspawn
    exact hget

theorem registerCreature_record {spec : CreatureSpec} {id : EntityId}
    (hregister : registerCreature world spec = .ok (id, next)) :
    ∃ spawned record, world.spawn {} = some (id, spawned) ∧
      (0 < record.health ∧ record.health = record.maxHealth) ∧
      (record.placement = spec.placement.id ∧ placementHeld world spec.placement.id ≠ true) ∧
      next = { spawned with creatures := spawned.creatures.insert id record } := by
  cases harea : world.area with
  | none =>
    simp only [registerCreature, harea, bind_ok_iff, pure_ok_iff, expect_eq_ok_iff,
      failIf_eq_ok_iff, Prod.mk.injEq] at hregister
    obtain ⟨_, -, _, -, stats, hstats, _, hheld, _, -, _, -, _, -, spawned, hspawn, rfl, rfl⟩ :=
      hregister
    exact ⟨spawned.2, _, hspawn, ⟨health_pos_of_readCreatureStats hstats, rfl⟩, ⟨rfl, hheld⟩, rfl⟩
  | some area =>
    simp only [registerCreature, harea, bind_ok_iff, pure_ok_iff, expect_eq_ok_iff,
      failIf_eq_ok_iff, Prod.mk.injEq] at hregister
    obtain ⟨_, -, _, -, _, -, stats, hstats, _, hheld, _, -, _, -, _, -, spawned, hspawn, rfl,
      rfl⟩ := hregister
    exact ⟨spawned.2, _, hspawn, ⟨health_pos_of_readCreatureStats hstats, rfl⟩, ⟨rfl, hheld⟩, rfl⟩

/-! ### The invariant -/

/-- How often the death of an entity is queued. -/
def deaths (world : World) (id : EntityId) : ℕ := world.payloads.count (.died id)

structure Mortal (world : World) : Prop where
  combatants : ∀ id combatant, world.combatants.get? id = some combatant →
    (combatant.dead = true ↔ combatant.health = 0) ∧ combatant.health ≤ combatant.maxHealth ∧
      deaths world id = if combatant.dead then 1 else 0
  creatures : ∀ id record, world.creatures.get? id = some record →
    record.health ≤ record.maxHealth ∧ (record.dead = false → deaths world id = 0)
  issued : ∀ id, SimEvent.died id ∈ world.payloads → world.entities.Spent id
  apart : ∀ id ∈ world.combatants.keys, id ∉ world.creatures.keys

namespace Mortal

variable {world next : World}

theorem new (seed : UInt64) : Mortal (World.new seed) where
  combatants := fun _ _ hnone ↦ by cases hnone
  creatures := fun _ _ hnone ↦ by cases hnone
  issued := fun _ hnone ↦ by cases hnone
  apart := fun _ hnone ↦ by cases hnone

variable {id : EntityId} {combatant : Combatant} {mode : EncounterMode}

/-- An identity that was never issued has no death queued. -/
theorem deaths_fresh (hmortal : Mortal world) (harena : world.entities.WellFormed)
    {data : EntityMeta} {entities : GenerationalArena EntityMeta}
    (hinsert : world.entities.insert data = some (id, entities)) : deaths world id = 0 := by
  refine List.count_eq_zero.mpr fun hmem ↦ ?_
  exact (hmortal.issued id hmem).ne_insert harena hinsert rfl

theorem deaths_push {tick : ℕ} {event : SimEvent}
    (hqueue : next.events = world.events.push tick event) (hplain : ∀ id, event ≠ .died id)
    (id : EntityId) : deaths next id = deaths world id := by
  rw [deaths, deaths, World.payloads, hqueue, EventQueue.push, List.map_append, List.count_append,
    List.map_singleton, List.count_singleton, if_neg]
  · rfl
  · simpa using hplain id

theorem of_subset (hmortal : Mortal world)
    (hcombatants : ∀ id combatant, next.combatants.get? id = some combatant →
      world.combatants.get? id = some combatant)
    (hcreatures : ∀ id record, next.creatures.get? id = some record →
      world.creatures.get? id = some record) (hdeaths : ∀ id, deaths next id = deaths world id)
    (hspent : ∀ id, world.entities.Spent id → next.entities.Spent id) : Mortal next where
  combatants := by
    intro id combatant hget
    rw [hdeaths]
    exact hmortal.combatants id combatant (hcombatants id combatant hget)
  creatures := by
    intro id record hget
    rw [hdeaths]
    exact hmortal.creatures id record (hcreatures id record hget)
  issued := by
    intro id hmem
    refine hspent id (hmortal.issued id ?_)
    have hsame : world.payloads.count (.died id) = next.payloads.count (.died id) :=
      (hdeaths id).symm
    rw [← List.count_pos_iff] at hmem ⊢
    exact hsame ▸ hmem
  apart := by
    intro id hfights hkept
    obtain ⟨combatant, hget⟩ := mem_keys_iff.mp hfights
    obtain ⟨record, hrecord⟩ := mem_keys_iff.mp hkept
    exact hmortal.apart id (mem_keys_iff.mpr ⟨combatant, hcombatants id combatant hget⟩)
      (mem_keys_iff.mpr ⟨record, hcreatures id record hrecord⟩)

theorem spawn (hmortal : Mortal world) (hgrounded : Grounded world) {data : EntityMeta}
    (hspawn : world.spawn data = some (id, next)) : Mortal next ∧ deaths next id = 0 := by
  obtain ⟨⟨minted, entities⟩, hinsert, hnext⟩ := Option.map_eq_some_iff.mp hspawn
  simp only [Prod.mk.injEq] at hnext
  obtain ⟨rfl, rfl⟩ := hnext
  have hdeaths (other : EntityId) : deaths { world with
      entities := entities
      events := world.events.push world.tick (.spawned minted) } other = deaths world other :=
    deaths_push rfl (fun _ heq ↦ by cases heq) other
  refine ⟨hmortal.of_subset (fun _ _ ↦ id) (fun _ _ ↦ id) hdeaths fun other hspent ↦ ?_, ?_⟩
  · exact (GenerationalArena.evolves_insert hgrounded.arena hinsert).spent hspent
  · exact (hdeaths minted).trans (hmortal.deaths_fresh hgrounded.arena hinsert)

theorem insertCreature (hmortal : Mortal world) {record : CreatureState}
    (hbound : record.health ≤ record.maxHealth)
    (hnone : record.dead = false → deaths world id = 0) (hidle : id ∉ world.combatants.keys) :
    Mortal { world with creatures := world.creatures.insert id record } := by
  refine ⟨hmortal.combatants, fun other found hget ↦ ?_, hmortal.issued,
    fun other hfights hkept ↦ ?_⟩
  · rw [IndexMap.get?_insert] at hget
    split_ifs at hget with hother
    · rw [← Option.some.inj hget, hother]
      exact ⟨hbound, hnone⟩
    · exact hmortal.creatures other found hget
  · rcases mem_keys_insert.mp hkept with rfl | hold
    · exact hidle hfights
    · exact hmortal.apart other hfights hold

theorem publish (hmortal : Mortal world) (mode : EncounterMode) (halive : combatant.dead = false)
    (hpositive : 0 < combatant.health) (hbound : combatant.health ≤ combatant.maxHealth)
    (hnone : deaths world id = 0) (hfree : id ∉ world.creatures.keys) :
    Mortal (publish mode world id combatant) := by
  refine ⟨fun other found hget ↦ ?_, hmortal.creatures, hmortal.issued, fun other hfights ↦ ?_⟩
  · change (world.combatants.insert id combatant).get? other = some found at hget
    rw [IndexMap.get?_insert] at hget
    split_ifs at hget with hother
    · rw [← Option.some.inj hget, hother, halive]
      exact ⟨iff_of_false (by decide) hpositive.ne', hbound, hnone⟩
    · exact hmortal.combatants other found hget
  · rcases mem_keys_insert.mp hfights with rfl | hold
    · exact hfree
    · exact hmortal.apart other hold

theorem deaths_harmed (hharmed : Harmed world next) {before after : Combatant}
    (hbefore : world.combatants.get? id = some before)
    (hafter : next.combatants.get? id = some after) : deaths next id =
      deaths world id + if before.dead = false ∧ after.dead = true then 1 else 0 := by
  obtain ⟨ids, hnodup, hfell, hqueue⟩ := hharmed.fallen
  have hmem : id ∈ ids ↔ before.dead = false ∧ after.dead = true := by
    rw [hfell, Living, Living]
    simp [hbefore, hafter]
  have hcount : (ids.map SimEvent.died).count (.died id) = if id ∈ ids then 1 else 0 := by
    rw [List.count_map_of_injective _ _ fun _ _ heq ↦ SimEvent.died.inj heq]
    split_ifs with hin
    · exact List.count_eq_one_of_mem hnodup hin
    · exact List.count_eq_zero.mpr hin
  rw [deaths, deaths, hqueue, List.count_append, hcount]
  simp only [hmem]

/-- Nobody dies who does not fight. -/
theorem deaths_harmed_of_notMem (hharmed : Harmed world next) (hidle : id ∉ world.combatants.keys) :
    deaths next id = deaths world id := by
  obtain ⟨ids, -, hfell, hqueue⟩ := hharmed.fallen
  rw [deaths, deaths, hqueue, List.count_append, Nat.add_eq_left, List.count_eq_zero]
  intro hmem
  obtain ⟨other, hother, heq⟩ := List.mem_map.mp hmem
  obtain ⟨combatant, hget, -⟩ := ((hfell other).mp hother).1
  cases heq
  exact hidle (mem_keys_iff.mpr ⟨combatant, hget⟩)

section

variable (hmortal : Mortal world)
include hmortal

section

variable (hgrounded : Grounded world)
include hgrounded

/-- The controller keeps health and death. -/
theorem harmed (hharmed : Harmed world next) (hcontrolled : Controlled world next) :
    Mortal next where
  combatants := by
    intro id after hafter
    obtain ⟨before, hbefore, hendures⟩ := hharmed.combatants.get?_eq_some hafter
    obtain ⟨hdead, hbound, hdeaths⟩ := hmortal.combatants id before hbefore
    refine ⟨hendures.mortal hdead, ?_, ?_⟩
    · rw [hendures.maxHealth]
      exact hendures.health.trans hbound
    · rw [deaths_harmed hharmed hbefore hafter, hdeaths]
      cases hold : before.dead with
      | true => simp [(hendures.dead hold).1]
      | false => cases after.dead <;> simp
  creatures := by
    intro id record hget
    rw [hcontrolled.creatures] at hget
    have hidle : id ∉ world.combatants.keys := fun hfights ↦
      hmortal.apart id hfights (mem_keys_iff.mpr ⟨record, hget⟩)
    rw [deaths_harmed_of_notMem hharmed hidle]
    exact hmortal.creatures id record hget
  issued := by
    intro id hmem
    rw [hcontrolled.entities]
    obtain ⟨ids, -, hfell, hqueue⟩ := hharmed.fallen
    rw [hqueue, List.mem_append] at hmem
    rcases hmem with hold | hnew
    · exact hmortal.issued id hold
    · obtain ⟨other, hother, heq⟩ := List.mem_map.mp hnew
      cases heq
      obtain ⟨combatant, hget, -⟩ := ((hfell id).mp hother).1
      have hlive := hgrounded.combatants id (mem_keys_iff.mpr ⟨combatant, hget⟩)
      obtain ⟨slot, hslot, hgeneration, hvalue⟩ := GenerationalArena.contains_iff.mp hlive
      exact ⟨slot, hslot, Or.inr ⟨hgeneration.symm, hvalue⟩⟩
  apart := by
    rw [hcontrolled.creatures, hcontrolled.keys]
    exact hmortal.apart

theorem registerCreature {spec : CreatureSpec}
    (hregister : registerCreature world spec = .ok (id, next)) : Mortal next := by
  obtain ⟨spawned, record, hspawn, hhealth, -, rfl⟩ := registerCreature_record hregister
  obtain ⟨hspawned, hdeaths⟩ := hmortal.spawn hgrounded hspawn
  refine hspawned.insertCreature hhealth.2.le (fun _ ↦ hdeaths) fun hfights ↦ ?_
  obtain ⟨⟨minted, entities⟩, hinsert, hnext⟩ := Option.map_eq_some_iff.mp hspawn
  simp only [Prod.mk.injEq] at hnext
  obtain ⟨rfl, rfl⟩ := hnext
  have hfresh := GenerationalArena.not_contains_of_insert hgrounded.arena hinsert
  exact absurd ((hgrounded.combatants minted hfights).symm.trans hfresh) (by decide)

theorem strip (id : EntityId) : Mortal (strip world (world.entities.remove id).2 id) := by
  refine hmortal.of_subset (fun other combatant hget ↦ ?_) (fun other record hget ↦ ?_)
    (fun _ ↦ rfl) fun other hspent ↦ ?_
  · change (world.combatants.shiftRemove id).get? other = some combatant at hget
    rw [IndexMap.get?_shiftRemove] at hget
    split_ifs at hget
    exact hget
  · change (world.creatures.shiftRemove id).get? other = some record at hget
    rw [IndexMap.get?_shiftRemove] at hget
    split_ifs at hget
    exact hget
  · exact (GenerationalArena.evolves_remove hgrounded.arena id).spent hspent

theorem despawnTracked (hcoherent : Coherent world) {facts : Bool × TransitionFacts}
    (hdespawn : despawnTracked world id = .ok (facts, next)) : Mortal next := by
  obtain rfl | ⟨settled, hrested, hcontrolled, rfl⟩ := despawnTracked_rested hcoherent hdespawn
  · exact hmortal
  · have hsettled := (hmortal.strip hgrounded id).harmed (hgrounded.strip id) hrested.harmed
      hcontrolled
    exact hsettled.of_subset (fun _ _ hkept ↦ hkept) (fun _ _ hkept ↦ hkept)
      (deaths_push rfl fun _ heq ↦ by cases heq) fun _ hkept ↦ hkept

theorem published {entry : Pending × Source} (hadmitted : Admitted world entry)
    (hpublished : Published mode world entry next) : Mortal next := by
  cases hpublished with
  | skip _ => exact hmortal
  | @enter entity record combatant hsource hfound _ hhealth hmax halive _ =>
    have hlives := hadmitted.enters entity record hsource hfound
    obtain ⟨hbound, hdeaths⟩ := hmortal.creatures entity record hfound
    have htaken : Mortal { world with creatures := world.creatures.shiftRemove entity } := by
      refine hmortal.of_subset (fun _ _ hkept ↦ hkept) (fun other found hget ↦ ?_) (fun _ ↦ rfl)
        fun _ hkept ↦ hkept
      change (world.creatures.shiftRemove entity).get? other = some found at hget
      rw [IndexMap.get?_shiftRemove] at hget
      split_ifs at hget
      exact hget
    refine htaken.publish mode halive ?_ ?_ (hdeaths hlives) ?_
    · rw [hhealth]
      exact Nat.pos_of_ne_zero (of_decide_eq_false hlives)
    · rw [hhealth, hmax]
      exact hbound
    · exact fun hkept ↦ (IndexMap.mem_keys_shiftRemove.mp hkept).2 rfl
  | @spawn id spawned combatant hsource hspawn _ hhealth hmax halive _ =>
    obtain ⟨hspawned, hdeaths⟩ := hmortal.spawn hgrounded hspawn
    refine hspawned.publish mode halive (hhealth ▸ hadmitted.spawns hsource)
      (hhealth.trans hmax.symm).le hdeaths fun hkept ↦ ?_
    obtain ⟨⟨minted, entities⟩, hinsert, hnext⟩ := Option.map_eq_some_iff.mp hspawn
    simp only [Prod.mk.injEq] at hnext
    obtain ⟨rfl, rfl⟩ := hnext
    have hfresh := GenerationalArena.not_contains_of_insert hgrounded.arena hinsert
    exact absurd ((hgrounded.creatures minted hkept).symm.trans hfresh) (by decide)

end

/-- A boundary pass that does not look at the dead keeps health and death too. -/
theorem stood (hstood : Stood world.combatants next.combatants)
    (hevents : next.events = world.events) (hcreatures : next.creatures = world.creatures)
    (hentities : next.entities = world.entities) : Mortal next := by
  have hdeaths (id : EntityId) : deaths next id = deaths world id := by
    rw [deaths, deaths, World.payloads, World.payloads, hevents]
  refine ⟨fun id after hafter ↦ ?_, fun id record hget ↦ ?_, fun id hmem ↦ ?_, ?_⟩
  · obtain ⟨before, hbefore, hstands⟩ := hstood.get?_eq_some hafter
    rw [hdeaths, hstands.alive, hstands.health, hstands.maxHealth]
    exact hmortal.combatants id before hbefore
  · rw [hcreatures] at hget
    rw [hdeaths]
    exact hmortal.creatures id record hget
  · rw [World.payloads, hevents] at hmem
    rw [hentities]
    exact hmortal.issued id hmem
  · rw [hcreatures, hstood.keys_eq]
    exact hmortal.apart

/-- A start keeps health and death. -/
theorem startEncounterInModeTracked (hgrounded : Grounded world) {spec : EncounterSpec}
    {facts : StartFacts}
    (hstart : startEncounterInModeTracked world spec mode = .ok (facts, next)) : Mortal next := by
  obtain ⟨-, prepared, sources, rolled, rng, published, hprepare, hsources, hkeyed, hpublish,
    hstood, hevents, hcreatures, hentities, -⟩ := started_of_start hstart
  -- The records still there are those the sources were read from.
  have hpublished : Mortal published ∧ Grounded published ∧ ∀ id record,
      published.creatures.get? id = some record → world.creatures.get? id = some record := by
    refine foldlM_preserves (motive := fun state : World ↦ Mortal state ∧ Grounded state ∧
      ∀ id record, state.creatures.get? id = some record →
        world.creatures.get? id = some record) ?_ ?_ hpublish
    · intro entry hmem state after hstate hafter
      obtain ⟨hmortal, hgrounded, hrecords⟩ := hstate
      have hcase := published_of_publishMember hafter
      have hadmitted := (admitted_of_rolled hprepare hsources hkeyed hmem).of_subset hrecords
      exact ⟨hmortal.published hgrounded hadmitted hcase, hgrounded.publishMember hafter,
        fun id record hget ↦ hrecords id record (hcase.records id record hget)⟩
    · refine ⟨hmortal.of_subset (fun _ _ hkept ↦ hkept) (fun _ _ hkept ↦ hkept) (fun _ ↦ rfl)
        fun _ hkept ↦ hkept, hgrounded.congr rfl rfl rfl rfl fun _ hkept ↦ hkept,
        fun _ _ hkept ↦ hkept⟩
  exact hpublished.1.stood hstood hevents hcreatures hentities

end

theorem exitRecord_eq {ruleset : Ulid} {round : ℕ} {lifecycle : Lifecycle} {release : Bool}
    {record : CreatureState}
    (hexit : exitRecord combatant ruleset round lifecycle release = some record) :
    record.placement = combatant.placement ∧ record.health = combatant.health ∧
      record.maxHealth = combatant.maxHealth := by
  unfold exitRecord at hexit
  split_ifs at hexit
  cases hexit
  exact ⟨rfl, rfl, rfl⟩

theorem release (hmortal : Mortal world) (combat : CombatState)
    (hget : world.combatants.get? id = some combatant) :
    Mortal (release combat world (id, combatant)) := by
  have hremoved : Mortal { world with
      timeline := world.timeline.remove id
      combatants := world.combatants.shiftRemove id } := by
    refine hmortal.of_subset (fun other found hfound ↦ ?_) (fun _ _ hkept ↦ hkept) (fun _ ↦ rfl)
      fun _ hkept ↦ hkept
    change (world.combatants.shiftRemove id).get? other = some found at hfound
    rw [IndexMap.get?_shiftRemove] at hfound
    split_ifs at hfound
    exact hfound
  obtain ⟨hdead, hbound, hdeaths⟩ := hmortal.combatants id combatant hget
  unfold Crpg.Sim.release
  dsimp only
  split
  · next record hexit =>
    obtain ⟨-, hhealth, hmax⟩ := exitRecord_eq hexit
    refine hremoved.insertCreature (by rw [hhealth, hmax]; exact hbound) (fun halive ↦ ?_) ?_
    · have hpositive : record.health ≠ 0 := of_decide_eq_false halive
      rw [hhealth] at hpositive
      change deaths world id = 0
      rw [hdeaths, if_neg fun hgone ↦ hpositive (hdead.mp hgone)]
    · exact fun hfights ↦ (IndexMap.mem_keys_shiftRemove.mp hfights).2 rfl
  · exact hremoved

/-- A release keeps health and death. -/
theorem endEncounter (hmortal : Mortal world) {summary : EncounterSummary}
    (hend : endEncounter world = .ok (summary, next)) : Mortal next := by
  simp only [Crpg.Sim.endEncounter, bind_ok_iff, pure_ok_iff, Prod.mk.injEq] at hend
  obtain ⟨combat, -, -, rfl⟩ := hend
  have hreleased (entries : List (EntityId × Combatant)) (state : World) (hstate : Mortal state)
      (hnodup : (entries.map Prod.fst).Nodup)
      (hthere : ∀ entry ∈ entries, state.combatants.get? entry.1 = some entry.2) :
      Mortal (entries.foldl (Crpg.Sim.release combat) state) := by
    induction entries generalizing state with
    | nil => exact hstate
    | cons entry rest ih =>
      rw [List.map_cons, List.nodup_cons] at hnodup
      refine ih _ (hstate.release combat (hthere entry (List.mem_cons_self ..))) hnodup.2
        fun other hother ↦ ?_
      rw [release_combatants, IndexMap.get?_shiftRemove, if_neg]
      · exact hthere other (List.mem_cons_of_mem _ hother)
      · exact fun heq ↦ hnodup.1 (heq ▸ List.mem_map_of_mem hother)
  exact (hreleased world.combatants.entries world hmortal world.combatants.nodup fun entry hentry ↦
    mem_entries_iff.mp hentry).of_subset (fun _ _ hkept ↦ hkept) (fun _ _ hkept ↦ hkept)
      (fun _ ↦ rfl) fun _ hkept ↦ hkept

theorem requestMode (hmortal : Mortal world) (hrequest : requestMode world mode = .ok next) :
    Mortal next := by
  simp only [Crpg.Sim.requestMode, bind_ok_iff, pure_ok_iff] at hrequest
  obtain ⟨combat, -, _, -, rfl⟩ := hrequest
  exact hmortal.of_subset (fun _ _ hkept ↦ hkept) (fun _ _ hkept ↦ hkept) (fun _ ↦ rfl)
    fun _ hkept ↦ hkept

/-- A transfer keeps health and death on both sides. -/
theorem transferEntity {source destination left entered : World} {entity moved : EntityId}
    (hsource : Mortal source) (hsourceGround : Grounded source) (hcoherent : Coherent source)
    (hdestination : Mortal destination) (hground : Grounded destination)
    (htransfer : transferEntity source destination entity = .ok (moved, left, entered)) :
    Mortal left ∧ Mortal entered := by
  obtain ⟨-, ⟨_, hremoved⟩, data, spawned, hspawn, rfl⟩ := transferEntity_cases htransfer
  refine ⟨hsource.despawnTracked hsourceGround hcoherent hremoved, ?_⟩
  obtain ⟨hspawned, hdeaths⟩ := hdestination.spawn hground hspawn
  have hidle : moved ∉ spawned.combatants.keys := by
    intro hfights
    obtain ⟨⟨minted, entities⟩, hinsert, hnext⟩ := Option.map_eq_some_iff.mp hspawn
    simp only [Prod.mk.injEq] at hnext
    obtain ⟨rfl, rfl⟩ := hnext
    have hfresh := GenerationalArena.not_contains_of_insert hground.arena hinsert
    exact absurd ((hground.combatants minted hfights).symm.trans hfresh) (by decide)
  cases hrecord : source.creatures.get? entity with
  | none =>
    exact hspawned.of_subset (fun _ _ hkept ↦ hkept) (fun _ _ hkept ↦ hkept) (fun _ ↦ rfl)
      fun _ hkept ↦ hkept
  | some record =>
    have hjoined := hspawned.insertCreature (hsource.creatures entity record hrecord).1
      (fun _ ↦ hdeaths) hidle
    exact hjoined.of_subset (fun _ _ hkept ↦ hkept) (fun _ _ hkept ↦ hkept) (fun _ ↦ rfl)
      fun _ hkept ↦ hkept

end Mortal

theorem Grounded.transferEntity {source destination left entered : World} {entity moved : EntityId}
    (hsource : Grounded source) (hdestination : Grounded destination)
    (htransfer : transferEntity source destination entity = .ok (moved, left, entered)) :
    Grounded left ∧ Grounded entered := by
  obtain ⟨-, ⟨_, hremoved⟩, data, spawned, hspawn, rfl⟩ := transferEntity_cases htransfer
  refine ⟨hsource.despawnTracked hremoved, ?_⟩
  obtain ⟨hspawned, hlive⟩ := hdestination.spawn hspawn
  have hplaced : Grounded { spawned with
      transforms := insertSome spawned.transforms moved (source.transforms.get? entity) } := by
    cases source.transforms.get? entity with
    | none => exact hspawned
    | some transform => exact hspawned.insertTransform hlive
  cases source.creatures.get? entity with
  | none => exact hplaced
  | some record => exact hplaced.insertCreature hlive

theorem grounded_of_reachable (hreachable : Reachable world) : Grounded world := by
  induction hreachable with
  | new seed => exact Grounded.new seed
  | newInArea seed area => exact (Grounded.new seed).congr rfl rfl rfl rfl fun _ hkept ↦ hkept
  | spawn _ returned ih => exact (ih.spawn returned).1
  | despawn _ returned ih => exact ih.despawnTracked returned
  | register _ returned ih => exact ih.registerCreature returned
  | start _ returned _ ih => exact (ih.startEncounterInModeTracked returned).1
  | perform _ returned ih => exact ih.controlled (performActionTracked_controlled returned).1
  | requestMode _ returned ih => exact ih.controlled (requestMode_controlled returned)
  | tick _ returned ih => exact ih.advanceTick.controlled (tickTracked_controlled returned).1
  | transferOut _ _ returned ihSource ihDestination =>
    exact (ihSource.transferEntity ihDestination returned).1
  | transferIn _ _ returned ihSource ihDestination =>
    exact (ihSource.transferEntity ihDestination returned).2
  | endEncounter _ returned ih => exact (ih.endEncounter returned).1

theorem mortal_of_reachable (hreachable : Reachable world) : Mortal world := by
  induction hreachable with
  | new seed => exact Mortal.new seed
  | newInArea seed area =>
    exact (Mortal.new seed).of_subset (fun _ _ hkept ↦ hkept) (fun _ _ hkept ↦ hkept) (fun _ ↦ rfl)
      fun _ hkept ↦ hkept
  | spawn before returned ih => exact (ih.spawn (grounded_of_reachable before) returned).1
  | despawn before returned ih =>
    exact ih.despawnTracked (grounded_of_reachable before) (coherent_of_reachable before) returned
  | register before returned ih => exact ih.registerCreature (grounded_of_reachable before) returned
  | start before returned _ ih =>
    exact ih.startEncounterInModeTracked (grounded_of_reachable before) returned
  | perform before returned ih =>
    exact ih.harmed (grounded_of_reachable before)
      (performActionTracked_harmed (coherent_of_reachable before) returned)
      (performActionTracked_controlled returned).1
  | requestMode _ returned ih => exact ih.requestMode returned
  | @tick world next _ before returned ih =>
    have hharmed := tickTracked_harmed (coherent_of_reachable before) returned
    have hticked : Mortal world.advanceTick := ih.of_subset (fun _ _ hkept ↦ hkept)
      (fun _ _ hkept ↦ hkept) (fun _ ↦ rfl) fun _ hkept ↦ hkept
    exact hticked.harmed (grounded_of_reachable before).advanceTick
      ⟨hharmed.combatants, hharmed.fallen⟩ (tickTracked_controlled returned).1
  | transferOut sourceBefore destinationBefore returned ihSource ihDestination =>
    exact (ihSource.transferEntity (grounded_of_reachable sourceBefore)
      (coherent_of_reachable sourceBefore) ihDestination (grounded_of_reachable destinationBefore)
      returned).1
  | transferIn sourceBefore destinationBefore returned ihSource ihDestination =>
    exact (ihSource.transferEntity (grounded_of_reachable sourceBefore)
      (coherent_of_reachable sourceBefore) ihDestination (grounded_of_reachable destinationBefore)
      returned).2
  | endEncounter _ returned ih => exact ih.endEncounter returned

/-! ### Transitions -/

/-- One returning operation of the simulation. -/
inductive Transition : World → World → Prop
  | spawn {world next : World} {data : EntityMeta} {id : EntityId}
      (returned : world.spawn data = some (id, next)) : Transition world next
  | despawn {world next : World} {id : EntityId} {facts : Bool × TransitionFacts}
      (returned : despawnTracked world id = .ok (facts, next)) : Transition world next
  | register {world next : World} {spec : CreatureSpec} {id : EntityId}
      (returned : registerCreature world spec = .ok (id, next)) : Transition world next
  | start {world next : World} {spec : EncounterSpec} {mode : EncounterMode} {facts : StartFacts}
      (returned : startEncounterInModeTracked world spec mode = .ok (facts, next)) :
      Transition world next
  | perform {world next : World} {action : CombatAction}
      {facts : Option ActionOutcome × TransitionFacts}
      (returned : performActionTracked world action = .ok (facts, next)) : Transition world next
  | requestMode {world next : World} {mode : EncounterMode}
      (returned : requestMode world mode = .ok next) : Transition world next
  | tick {world next : World} {facts : TickFacts}
      (returned : tickTracked world = .ok (facts, next)) : Transition world next
  | transferOut {source destination left entered : World} {entity moved : EntityId}
      (destinationBefore : Reachable destination)
      (returned : transferEntity source destination entity = .ok (moved, left, entered)) :
      Transition source left
  | transferIn {source destination left entered : World} {entity moved : EntityId}
      (sourceBefore : Reachable source)
      (returned : transferEntity source destination entity = .ok (moved, left, entered)) :
      Transition destination entered
  | endEncounter {world next : World} {summary : EncounterSummary}
      (returned : endEncounter world = .ok (summary, next)) : Transition world next

theorem Transition.reachable (hstep : Transition world next) (hreachable : Reachable world) :
    Reachable next := by
  cases hstep with
  | spawn returned => exact .spawn hreachable returned
  | despawn returned => exact .despawn hreachable returned
  | register returned => exact .register hreachable returned
  | start returned => exact .start hreachable returned trivial
  | perform returned => exact .perform hreachable returned
  | requestMode returned => exact .requestMode hreachable returned
  | tick returned => exact .tick hreachable returned
  | transferOut destinationBefore returned =>
    exact .transferOut hreachable destinationBefore returned
  | transferIn sourceBefore returned => exact .transferIn sourceBefore hreachable returned
  | endEncounter returned => exact .endEncounter hreachable returned

/-- A combatant whose health an operation took from positive to zero. -/
def Dies (world next : World) (id : EntityId) : Prop :=
  ∃ before after, world.combatants.get? id = some before ∧ next.combatants.get? id = some after ∧
    0 < before.health ∧ after.health = 0

structure Aging (world next : World) : Prop where
  health : ∀ id before after, world.combatants.get? id = some before →
    next.combatants.get? id = some after → after.health ≤ before.health ∧
      (before.dead = true → after.dead = true ∧ after.actionPool = before.actionPool ∧
        after.extraPools = before.extraPools)
  died : ∀ id, Dies world next id ∧ deaths next id = deaths world id + 1 ∨
    ¬Dies world next id ∧ deaths next id = deaths world id
  kept : ∀ id record, world.creatures.get? id = some record → record.dead = true →
    next.creatures.get? id = some record ∨ next.contains id = false
  released : ∀ id combatant record, world.combatants.get? id = some combatant →
    combatant.dead = true → next.creatures.get? id = some record → record.dead = true

section Aging

variable {world next : World}

variable {id : EntityId}

section

variable (hmortal : Mortal world)
include hmortal

theorem Mortal.dies_iff (hharmed : Harmed world next) {before after : Combatant}
    (hbefore : world.combatants.get? id = some before)
    (hafter : next.combatants.get? id = some after) :
    Dies world next id ↔ before.dead = false ∧ after.dead = true := by
  obtain ⟨found, hfound, hendures⟩ := hharmed.combatants.get?_eq_some hafter
  rw [hbefore, Option.some.injEq] at hfound
  subst hfound
  have hold := (hmortal.combatants id before hbefore).1
  have hnew := hendures.mortal hold
  constructor
  · rintro ⟨first, last, hfirst, hlast, hpositive, hzero⟩
    rw [hbefore, Option.some.injEq] at hfirst
    rw [hafter, Option.some.injEq] at hlast
    subst hfirst hlast
    exact ⟨Bool.eq_false_iff.mpr fun hdead ↦ hpositive.ne' (hold.mp hdead), hnew.mpr hzero⟩
  · rintro ⟨halive, hdead⟩
    refine ⟨before, after, hbefore, hafter, Nat.pos_of_ne_zero fun hzero ↦ ?_, hnew.mp hdead⟩
    exact absurd ((hold.mpr hzero).symm.trans halive) (by decide)

/-- An operation of the controller. -/
theorem aging_of_harmed (hharmed : Harmed world next)
    (hcreatures : next.creatures = world.creatures) : Aging world next where
  health := by
    intro id before after hbefore hafter
    obtain ⟨found, hfound, hendures⟩ := hharmed.combatants.get?_eq_some hafter
    rw [hbefore, Option.some.injEq] at hfound
    subst hfound
    exact ⟨hendures.health, fun hdead ↦ ⟨(hendures.dead hdead).1, (hendures.dead hdead).2.2⟩⟩
  died := by
    intro id
    by_cases hfights : id ∈ world.combatants.keys
    · obtain ⟨before, hbefore⟩ := mem_keys_iff.mp hfights
      obtain ⟨after, hafter, -⟩ := hharmed.combatants.get?_eq_some' hbefore
      rw [Mortal.deaths_harmed hharmed hbefore hafter, hmortal.dies_iff hharmed hbefore hafter]
      by_cases hcase : before.dead = false ∧ after.dead = true
      · exact Or.inl ⟨hcase, by rw [if_pos hcase]⟩
      · exact Or.inr ⟨hcase, by rw [if_neg hcase, Nat.add_zero]⟩
    · refine Or.inr ⟨?_, Mortal.deaths_harmed_of_notMem hharmed hfights⟩
      rintro ⟨before, _, hbefore, -⟩
      exact hfights (mem_keys_iff.mpr ⟨before, hbefore⟩)
  kept := by
    intro id record hget _
    rw [hcreatures]
    exact Or.inl hget
  released := by
    intro id combatant record hget _ hrecord
    rw [hcreatures] at hrecord
    exact absurd (mem_keys_iff.mpr ⟨record, hrecord⟩)
      (hmortal.apart id (mem_keys_iff.mpr ⟨combatant, hget⟩))

/-- An operation that harms nobody. -/
theorem aging_of_rests (hrests : ∀ id before after, world.combatants.get? id = some before →
      next.combatants.get? id = some after → Combatant.Rests before after)
    (hdeaths : ∀ id, deaths next id = deaths world id)
    (hkept : ∀ id record, world.creatures.get? id = some record → record.dead = true →
      next.creatures.get? id = some record ∨ next.contains id = false)
    (hreleased : ∀ id combatant record, world.combatants.get? id = some combatant →
      combatant.dead = true → next.creatures.get? id = some record → record.dead = true) :
    Aging world next where
  health := by
    intro id before after hbefore hafter
    have hrest := hrests id before after hbefore hafter
    exact ⟨hrest.health, fun hdead ↦ ⟨(hrest.dead hdead).1, (hrest.dead hdead).2.2⟩⟩
  died := by
    intro id
    refine Or.inr ⟨?_, hdeaths id⟩
    rintro ⟨before, after, hbefore, hafter, hpositive, hzero⟩
    have hrest := hrests id before after hbefore hafter
    have hold := (hmortal.combatants id before hbefore).1
    have hdead := (hrest.mortal hold).mpr hzero
    rw [hrest.alive] at hdead
    exact hpositive.ne' (hold.mp hdead)
  kept := hkept
  released := hreleased

theorem Mortal.no_record {combatant : Combatant} {record : CreatureState}
    (hget : world.combatants.get? id = some combatant)
    (hrecord : world.creatures.get? id = some record) : False :=
  hmortal.apart id (mem_keys_iff.mpr ⟨combatant, hget⟩)
    (mem_keys_iff.mpr ⟨record, hrecord⟩)

theorem aging_of_despawn (hgrounded : Grounded world) (hcoherent : Coherent world)
    {facts : Bool × TransitionFacts} (hdespawn : despawnTracked world id = .ok (facts, next)) :
    Aging world next := by
  obtain rfl | ⟨settled, hrested, hcontrolled, rfl⟩ := despawnTracked_rested hcoherent hdespawn
  · exact aging_of_harmed hmortal (Harmed.refl _) rfl
  · have hrecord (other : EntityId) : settled.creatures.get? other =
        if other = id then none else world.creatures.get? other := by
      rw [hcontrolled.creatures]
      exact IndexMap.get?_shiftRemove
    refine aging_of_rests hmortal (fun other before after hbefore hafter ↦ ?_) (fun other ↦ ?_)
      (fun other record hget _ ↦ ?_) fun other combatant record hget _ hkept ↦ ?_
    · obtain ⟨found, hfound, hrests⟩ := hrested.combatants.get?_eq_some hafter
      change (world.combatants.shiftRemove id).get? other = some found at hfound
      rw [IndexMap.get?_shiftRemove] at hfound
      split_ifs at hfound
      rw [hbefore, Option.some.injEq] at hfound
      exact hfound ▸ hrests
    · have hsettled : deaths settled other = deaths world other := by
        rw [deaths, World.payloads, hrested.events]
        rfl
      exact (Mortal.deaths_push rfl (fun _ heq ↦ by cases heq) other).trans hsettled
    · by_cases hother : other = id
      · refine Or.inr ?_
        rw [← Bool.not_eq_true]
        change ¬settled.entities.contains other = true
        rw [hcontrolled.entities]
        exact fun hlive ↦
          ((GenerationalArena.contains_remove_iff hgrounded.arena).mp hlive).2 hother
      · exact Or.inl (((hrecord other).trans (if_neg hother)).trans hget)
    · have hold : settled.creatures.get? other = some record := hkept
      rw [hrecord] at hold
      split_ifs at hold
      exact (hmortal.no_record hget hold).elim

/-- Adding a live entity, with or without a record, ages nobody. -/
theorem aging_of_spawn (hgrounded : Grounded world) {data : EntityMeta} {spawned : World}
    (hspawn : world.spawn data = some (id, spawned))
    (hcombatants : next.combatants = spawned.combatants) (hevents : next.events = spawned.events)
    (hcreatures : ∀ other, other ≠ id → next.creatures.get? other = spawned.creatures.get? other) :
    Aging world next := by
  obtain ⟨⟨minted, entities⟩, hinsert, hnext⟩ := Option.map_eq_some_iff.mp hspawn
  simp only [Prod.mk.injEq] at hnext
  obtain ⟨rfl, rfl⟩ := hnext
  have hfresh := GenerationalArena.not_contains_of_insert hgrounded.arena hinsert
  have hne {T : Type} {store : ComponentStore T} (hstore : ∀ id ∈ store.keys,
      world.entities.contains id = true) {other : EntityId} {value : T}
      (hget : store.get? other = some value) : other ≠ minted := by
    rintro rfl
    have hlive := hstore other (mem_keys_iff.mpr ⟨value, hget⟩)
    exact absurd (hlive.symm.trans hfresh) (by decide)
  refine aging_of_rests hmortal (fun other before after hbefore hafter ↦ ?_) (fun other ↦ ?_)
    (fun other record hget _ ↦ Or.inl ?_) fun other combatant record hget _ hkept ↦ ?_
  · rw [hcombatants] at hafter
    rw [hbefore, Option.some.injEq] at hafter
    exact hafter ▸ Combatant.Rests.refl before
  · exact Mortal.deaths_push hevents (fun _ heq ↦ by cases heq) other
  · exact (hcreatures other (hne hgrounded.creatures hget)).trans hget
  · rw [hcreatures other (hne hgrounded.combatants hget)] at hkept
    exact (hmortal.no_record hget hkept).elim

/-- A start ages nobody: nobody fought before it, and it takes no dead record. -/
theorem aging_of_start (hcoherent : Coherent world) {spec : EncounterSpec} {mode : EncounterMode}
    {facts : StartFacts}
    (hstart : startEncounterInModeTracked world spec mode = .ok (facts, next)) :
    Aging world next := by
  obtain ⟨hidle, prepared, sources, rolled, rng, published, hprepare, hsources, hkeyed, hpublish,
    -, hevents, hcreatures, -⟩ := started_of_start hstart
  have hnobody (id : EntityId) (combatant : Combatant)
      (hget : world.combatants.get? id = some combatant) : False := by
    have hmem := mem_keys_iff.mpr ⟨combatant, hget⟩
    rw [(hcoherent.released hidle).1] at hmem
    exact absurd hmem List.not_mem_nil
  have hpublished : (∀ id, deaths published id = deaths world id) ∧ ∀ id record,
      world.creatures.get? id = some record → record.dead = true →
        published.creatures.get? id = some record := by
    refine foldlM_preserves (motive := fun state : World ↦
      (∀ id, deaths state id = deaths world id) ∧ ∀ id record,
        world.creatures.get? id = some record → record.dead = true →
          state.creatures.get? id = some record) ?_ ?_ hpublish
    case refine_2 => exact ⟨fun _ ↦ rfl, fun _ _ hkept _ ↦ hkept⟩
    intro entry hmem state after hstate hafter
    obtain ⟨hdeaths, hrecords⟩ := hstate
    cases published_of_publishMember hafter with
    | skip _ => exact ⟨hdeaths, hrecords⟩
    | @enter entity _ _ hsource _ _ _ _ _ _ =>
      refine ⟨hdeaths, fun id record hget hdead ↦ ?_⟩
      change (state.creatures.shiftRemove entity).get? id = some record
      rw [IndexMap.get?_shiftRemove, if_neg]
      · exact hrecords id record hget hdead
      · rintro rfl
        have hadmitted := admitted_of_rolled hprepare hsources hkeyed hmem
        exact absurd (hdead.symm.trans (hadmitted.enters id record hsource hget)) (by decide)
    | spawn _ hspawn _ _ _ _ _ =>
      obtain ⟨⟨minted, entities⟩, -, hnext⟩ := Option.map_eq_some_iff.mp hspawn
      simp only [Prod.mk.injEq] at hnext
      obtain ⟨rfl, rfl⟩ := hnext
      refine ⟨fun id ↦ ?_, hrecords⟩
      exact (Mortal.deaths_push rfl (fun _ heq ↦ by cases heq) id).trans (hdeaths id)
  refine aging_of_rests hmortal (fun id before _ hbefore ↦ (hnobody id before hbefore).elim)
    (fun id ↦ ?_) (fun id record hget hdead ↦ Or.inl ?_)
    fun id combatant _ hget ↦ (hnobody id combatant hget).elim
  · rw [← hpublished.1 id, deaths, deaths, World.payloads, World.payloads, hevents]
  · rw [hcreatures]
    exact hpublished.2 id record hget hdead

end

theorem get?_foldl_release (combat : CombatState) (entries : List (EntityId × Combatant))
    (hnodup : (entries.map Prod.fst).Nodup) (world : World) (id : EntityId) :
    (entries.foldl (release combat) world).creatures.get? id =
      ((Entries.lookup id entries).bind fun combatant ↦
        exitRecord combatant combat.definition.ruleset combat.round combat.lifecycle true).or
          (world.creatures.get? id) := by
  induction entries generalizing world with
  | nil => rfl
  | cons entry rest ih =>
    obtain ⟨key, combatant⟩ := entry
    rw [List.map_cons, List.nodup_cons] at hnodup
    have hone : (release combat world (key, combatant)).creatures.get? id =
        if id = key then (exitRecord combatant combat.definition.ruleset combat.round
          combat.lifecycle true).or (world.creatures.get? id) else world.creatures.get? id := by
      unfold release
      dsimp only
      split
      · next record hexit =>
        rw [IndexMap.get?_insert, hexit]
        rfl
      · next hexit =>
        rw [hexit, Option.none_or, ite_self]
    rw [List.foldl_cons, ih hnodup.2, hone, Entries.lookup]
    by_cases hid : id = key
    · subst hid
      rw [if_pos rfl, if_pos rfl, Entries.lookup_eq_none_iff.mpr hnodup.1]
      rfl
    · rw [if_neg hid, if_neg hid]

/-- A release ages nobody: the dead become dead records. -/
theorem aging_of_endEncounter (hmortal : Mortal world) {summary : EncounterSummary}
    (hend : endEncounter world = .ok (summary, next)) : Aging world next := by
  simp only [endEncounter, bind_ok_iff, pure_ok_iff, Prod.mk.injEq] at hend
  obtain ⟨combat, -, -, rfl⟩ := hend
  have hrecord := get?_foldl_release combat world.combatants.entries world.combatants.nodup world
  have hgone : (world.combatants.entries.foldl (release combat) world).combatants.keys = [] := by
    rw [keys_foldl_release, List.filter_eq_nil_iff]
    intro key hkey
    simpa [IndexMap.keys] using hkey
  have hqueue (entries : List (EntityId × Combatant)) (state : World) :
      (entries.foldl (release combat) state).events = state.events := by
    induction entries generalizing state with
    | nil => rfl
    | cons entry rest ih =>
      rw [List.foldl_cons, ih]
      unfold release
      dsimp only
      split <;> rfl
  refine aging_of_rests hmortal (fun id _ after _ hafter ↦ ?_) (fun id ↦ ?_)
    (fun id record hget _ ↦ Or.inl ?_) fun id combatant record hget hdead hkept ↦ ?_
  · have hmem := mem_keys_iff.mpr ⟨after, hafter⟩
    change id ∈ (world.combatants.entries.foldl (release combat) world).combatants.keys at hmem
    rw [hgone] at hmem
    exact absurd hmem List.not_mem_nil
  · rw [deaths, deaths, World.payloads, World.payloads]
    exact congrArg (fun queue : EventQueue SimEvent ↦
      (queue.envelopes.map EventEnvelope.payload).count (.died id)) (hqueue _ world)
  · have hnone : Entries.lookup id world.combatants.entries = none := by
      refine Entries.lookup_eq_none_iff.mpr fun hfights ↦ ?_
      exact hmortal.apart id hfights (mem_keys_iff.mpr ⟨record, hget⟩)
    refine (hrecord id).trans ?_
    rw [hnone, hget]
    rfl
  · have hfound : Entries.lookup id world.combatants.entries = some combatant := hget
    have hbare : world.creatures.get? id = none := by
      by_contra hsome
      obtain ⟨other, hother⟩ := Option.ne_none_iff_exists'.mp hsome
      exact hmortal.no_record hget hother
    have hexit := (hrecord id).symm.trans hkept
    rw [hfound, hbare, Option.or_none, Option.bind_some] at hexit
    have hhealth := (Mortal.exitRecord_eq hexit).2.1
    have hzero := (hmortal.combatants id combatant hget).1.mp hdead
    exact decide_eq_true (hhealth.trans hzero)

/-- What every operation does to health. -/
theorem Transition.aging (hstep : Transition world next) (hreachable : Reachable world) :
    Aging world next := by
  have hmortal := mortal_of_reachable hreachable
  have hgrounded := grounded_of_reachable hreachable
  have hcoherent := coherent_of_reachable hreachable
  cases hstep with
  | spawn returned =>
    exact aging_of_spawn hmortal hgrounded returned rfl rfl fun _ _ ↦ rfl
  | despawn returned => exact aging_of_despawn hmortal hgrounded hcoherent returned
  | register returned =>
    obtain ⟨spawned, record, hspawn, -, -, rfl⟩ := registerCreature_record returned
    refine aging_of_spawn hmortal hgrounded hspawn rfl rfl fun other hne ↦ ?_
    exact IndexMap.get?_insert.trans (if_neg hne)
  | start returned => exact aging_of_start hmortal hcoherent returned
  | perform returned =>
    exact aging_of_harmed hmortal (performActionTracked_harmed hcoherent returned)
      (performActionTracked_controlled returned).1.creatures
  | requestMode returned =>
    simp only [Crpg.Sim.requestMode, bind_ok_iff, pure_ok_iff] at returned
    obtain ⟨combat, -, _, -, rfl⟩ := returned
    exact aging_of_harmed hmortal (Rested.harmed ⟨(Rested.refl world).combatants, rfl⟩) rfl
  | tick returned =>
    exact aging_of_harmed hmortal (tickTracked_harmed hcoherent returned)
      (tickTracked_controlled returned).1.creatures
  | transferOut _ returned =>
    obtain ⟨-, ⟨_, hremoved⟩, -⟩ := transferEntity_cases returned
    exact aging_of_despawn hmortal hgrounded hcoherent hremoved
  | @transferIn source _ _ _ entity _ _ returned =>
    obtain ⟨-, -, _, spawned, hspawn, rfl⟩ := transferEntity_cases returned
    refine aging_of_spawn hmortal hgrounded hspawn rfl rfl fun other hne ↦ ?_
    cases source.creatures.get? entity with
    | none => rfl
    | some record => exact IndexMap.get?_insert.trans (if_neg hne)
  | endEncounter returned => exact aging_of_endEncounter hmortal returned

end Aging

/-- The combatant an action is made by. -/
def CombatAction.actor : CombatAction → EntityId
  | .useAbility actor _ _ => actor
  | .endTurn actor => actor
  | .stop actor => actor

theorem living_of_validated {action : CombatAction}
    (hvalid : validateAction world action = .ok ()) : Living world.combatants action.actor := by
  cases action with
  | useAbility actor ability target => exact (living_of_validateAction hvalid).1
  | endTurn actor =>
    simp only [validateAction, bind_ok_iff] at hvalid
    obtain ⟨_, -, _, hactor, -⟩ := hvalid
    exact living_of_checkActor hactor
  | stop actor =>
    simp only [validateAction, bind_ok_iff] at hvalid
    obtain ⟨_, -, _, hactor, -⟩ := hvalid
    exact living_of_checkActor hactor

/-- A start whose participants are all dead is rejected. -/
theorem start_noEntrants (hprepare : prepare world spec mode = .ok prepared)
    (hsources : Result.mapM (sourceOf world prepared) prepared.pending = .ok sources)
    (hskipped : ∀ entry ∈ sources, entry.2 = .skip) :
    startEncounterInModeTracked world spec mode = .err .noEntrants := by
  have hall : (sources.all fun entry ↦ entry.2 = .skip) = true :=
    List.all_eq_true.mpr fun entry hentry ↦ decide_eq_true (hskipped entry hentry)
  rw [startEncounterInModeTracked, hprepare]
  simp only [bind_eq, Result.ok_bind, hsources, Result.failIf, if_pos hall, Result.err_bind]

theorem sourceOf_record {member : Pending} :
    (∀ entering entity, sourceOf world prepared member = .ok (entering, .enter entity) →
      ∃ record, world.creatures.get? entity = some record ∧ record.dead = false) ∧
    ∀ entity record, prepared.lifecycle.respawns = false →
      (world.creatures.entries.find? fun entry ↦ entry.2.placement = member.placement) =
        some (entity, record) → record.dead = true →
      sourceOf world prepared member = .ok (member, .skip) := by
  refine ⟨fun entering entity hsource ↦ ?_, fun entity record hkeeps hfind hdead ↦ ?_⟩
  · cases sourced_of_sourceOf hsource with
    | enter _ hfound halive _ _ => exact ⟨_, hfound, halive⟩
  · rw [sourceOf, if_neg (by rw [hkeeps]; decide), hfind]
    exact if_pos hdead

/-- Health and death. Assumes: a reachable world. A combatant is dead exactly at health zero, its
health is within its maximum, and its death is queued once if it is dead and never otherwise. The
dead are not scheduled, no action of theirs and none against them is accepted, and the execution
pass passes over them. No operation raises the health of a combatant; it queues a death exactly for
those it takes from positive health to zero; it leaves the dead with their pools, and a dead record
as it is unless the entity leaves the world; and the record of a dead combatant is dead. A
resolution queues the death of its target exactly when it kills it. A start enters no dead record,
skips the participants that have one and is rejected when it skips all of them. -/
theorem health_and_death {world : World} (hreachable : Reachable world) :
    (∀ id combatant, world.combatants.get? id = some combatant →
      (combatant.dead = true ↔ combatant.health = 0) ∧ combatant.health ≤ combatant.maxHealth ∧
      deaths world id = (if combatant.dead then 1 else 0) ∧
      (combatant.dead = true → world.timeline.contains id = false ∧
        (∀ action, action.actor = id → validateAction world action ≠ .ok ()) ∧
        (∀ actor ability, validateAction world (.useAbility actor ability id) ≠ .ok ()) ∧
        ∀ elapsed roundTicks events,
          executeDue elapsed roundTicks (events, world) id = .ok (events, world))) ∧
    (∀ next, Transition world next → Aging world next) ∧ (∀ actor ability target outcome next,
      validateAction world (.useAbility actor ability target) = .ok () →
      resolveUse world actor ability target = .ok (outcome, next) →
      (outcome.targetDied = true ↔ Dies world next target) ∧
        next.payloads = world.payloads ++ if outcome.targetDied then [.died target] else []) ∧
    (∀ prepared member, (∀ entering entity,
        sourceOf world prepared member = .ok (entering, .enter entity) →
        ∃ record, world.creatures.get? entity = some record ∧ record.dead = false) ∧
      ∀ entity record, prepared.lifecycle.respawns = false →
        (world.creatures.entries.find? fun entry ↦ entry.2.placement = member.placement) =
          some (entity, record) → record.dead = true →
        sourceOf world prepared member = .ok (member, .skip)) ∧
    ∀ spec mode prepared sources, prepare world spec mode = .ok prepared →
      Result.mapM (sourceOf world prepared) prepared.pending = .ok sources →
      (∀ entry ∈ sources, entry.2 = .skip) →
      startEncounterInModeTracked world spec mode = .err .noEntrants := by
  have hmortal := mortal_of_reachable hreachable
  have hscheduled := (coherent_of_reachable hreachable).scheduledLiving
  refine ⟨fun id combatant hget ↦ ?_, fun next hstep ↦ hstep.aging hreachable, ?_,
    fun prepared member ↦ sourceOf_record,
    fun spec mode prepared sources hprepare ↦ start_noEntrants hprepare⟩
  · obtain ⟨hdead, hbound, hdeaths⟩ := hmortal.combatants id combatant hget
    refine ⟨hdead, hbound, hdeaths, fun hgone ↦ ?_⟩
    have hnot : ¬Living world.combatants id := by
      rintro ⟨found, hfound, halive⟩
      rw [hget, Option.some.injEq] at hfound
      exact absurd ((hfound ▸ hgone).symm.trans halive) (by decide)
    refine ⟨?_, fun action hactor hvalid ↦ ?_, fun actor ability hvalid ↦ ?_,
      fun elapsed roundTicks events ↦ executeDue_dead hget hgone⟩
    · rw [← Bool.not_eq_true, Timeline.contains_iff]
      rintro ⟨slot, hslot, rfl⟩
      exact hnot (hscheduled slot hslot)
    · exact hnot (hactor ▸ living_of_validated hvalid)
    · exact hnot (living_of_validateAction hvalid).2
  · intro actor ability target outcome next hvalid hresolve
    obtain ⟨hactor, htarget⟩ := living_of_validateAction hvalid
    obtain ⟨hharmed, hdied, hqueued⟩ := resolveUse_harmed hactor htarget hresolve
    refine ⟨hdied.trans ?_, hqueued⟩
    obtain ⟨before, hbefore, halive⟩ := htarget
    obtain ⟨after, hafter, hendures⟩ := hharmed.combatants.get?_eq_some' hbefore
    have hold := (hmortal.combatants target before hbefore).1
    have hnew := hendures.mortal hold
    constructor
    · intro hgone
      refine ⟨before, after, hbefore, hafter, Nat.pos_of_ne_zero fun hzero ↦ ?_, hnew.mp ?_⟩
      · exact absurd ((hold.mpr hzero).symm.trans halive) (by decide)
      · by_contra hlives
        exact hgone ⟨after, hafter, Bool.eq_false_iff.mpr hlives⟩
    · rintro ⟨_, last, -, hlast, -, hzero⟩ ⟨found, hfound, hlives⟩
      rw [hafter, Option.some.injEq] at hlast hfound
      subst hlast hfound
      exact absurd ((hnew.mpr hzero).symm.trans hlives) (by decide)

/-- The duelist that kills itself is dead at health zero, with one death queued. -/
theorem duel_death : ∃ world combatant, Reachable world ∧
    world.combatants.get? ⟨0, 1⟩ = some combatant ∧ combatant.health = 0 ∧
    deaths world ⟨0, 1⟩ = 1 := by
  obtain ⟨⟨facts, world⟩, hacted, hworld⟩ := Result.isOkAnd_iff.mp
    (show duelSuicide.isOkAnd (fun acted ↦ (acted.2.combatants.get? ⟨0, 1⟩).any fun combatant ↦
      combatant.dead) = true by decide +kernel)
  simp only [Option.any_eq_true] at hworld
  obtain ⟨combatant, hget, hdead⟩ := hworld
  obtain ⟨⟨_, started⟩, hstart, hacted⟩ := bind_eq_ok_iff.mp hacted
  have hreachable : Reachable world := .perform (.start (.new 0) hstart trivial) hacted
  obtain ⟨hzero, -, hdeaths, -⟩ := (health_and_death hreachable).1 ⟨0, 1⟩ combatant hget
  refine ⟨world, combatant, hreachable, hget, hzero.mp hdead, ?_⟩
  rw [hdeaths, if_pos hdead]

end Crpg.Sim
