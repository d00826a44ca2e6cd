import Crpg.Sim.Lifecycle

/-!
# Creatures over runs

Where the encounters are those of validated documents (`EncounterSpec.Authored`), a placement is
kept by one entity at a time (`Placed`). `Conserves` says of every operation which living
creatures it adds to a world and which it takes away.
-/

set_option autoImplicit false

namespace Crpg.Sim

open Crpg.Core Crpg.Lib Crpg.Rules Crpg.Data

/-! ### Starts of validated documents -/

/-- What `EncounterSpec` promises of its documents: they passed the checks of `crpg-data`, which
rejects a duplicate encounter participant, and the placements are bound by identity. -/
structure EncounterSpec.Authored (spec : EncounterSpec) : Prop where
  participants : (spec.encounter.participants.map EncounterParticipant.placement).Nodup
  placements : ∀ id resolved, spec.placements.get? id = some resolved → resolved.placement.id = id

section Start

variable {world next : World} {spec : EncounterSpec} {mode : EncounterMode} {prepared : Prepared}
  {sources : List (Pending × Source)}

theorem keeps_start (hmortal : Mortal world) (hgrounded : Grounded world)
    (hcoherent : Coherent world) {facts : StartFacts}
    (hstart : startEncounterInModeTracked world spec mode = .ok (facts, next)) :
    ∃ (prepared : Prepared) (sources : List (Pending × Source)) (spawned : List (EntityId × Ulid)),
      prepare world spec mode = .ok prepared ∧
      Result.mapM (sourceOf world prepared) prepared.pending = .ok sources ∧
      spawned.map Prod.snd = spawning sources ∧ (spawned.map Prod.fst).Nodup ∧
      (∀ creature ∈ spawned, world.entities.contains creature.1 = false) ∧
      ∀ creature, Keeps next.respawns next creature ↔ Keeps world.respawns world creature ∨
        prepared.lifecycle.respawns = false ∧ creature.dead = false ∧
          (creature.entity, creature.placement) ∈ spawned := by
  obtain ⟨hidle, prepared, sources, rolled, rng, published, hprepare, hsources, hkeyed, hpublish,
    hstood, -, hcreatures, -, combat, hcombat, hlifecycle⟩ := started_of_start hstart
  have hseeded : Mortal { world with rng := rng } := hmortal.of_subset (fun _ _ hkept ↦ hkept)
    (fun _ _ hkept ↦ hkept) (fun _ ↦ rfl) fun _ hkept ↦ hkept
  have hground : Grounded { world with rng := rng } :=
    hgrounded.congr rfl rfl rfl rfl fun _ hkept ↦ hkept
  obtain ⟨spawned, hplacements, hnodup, hfresh, hkeeps⟩ := keeps_publishMembers hseeded hground
    (fun entry hentry ↦ (admitted_of_rolled hprepare hsources hkeyed hentry).of_subset
      fun _ _ hkept ↦ hkept) hpublish
  have hrules : next.respawns = prepared.lifecycle.respawns := by
    rw [World.respawns, World.lifecycle, hcombat, ← hlifecycle]
    rfl
  refine ⟨prepared, sources, spawned, hprepare, hsources, ?_, hnodup, hfresh, fun creature ↦ ?_⟩
  · rw [hplacements, spawning_keyed hkeyed]
  · rw [hrules, keeps_of_rel hstood
      (fun _ _ hstands ↦ ⟨hstands.placement, hstands.entered, hstands.alive⟩) hcreatures, hkeeps]
    exact or_congr ((keeps_congr rfl rfl).trans
      (keeps_released (hcoherent.released hidle).1 world.respawns)) Iff.rfl

/-- Nothing is kept of a participant that spawns. -/
theorem unkept_of_spawning
    (hsources : Result.mapM (sourceOf world prepared) prepared.pending = .ok sources)
    (hkeeps : prepared.lifecycle.respawns = false) {placement : Ulid}
    (hspawns : placement ∈ spawning sources) (id : EntityId) (record : CreatureState)
    (hget : world.creatures.get? id = some record) : record.placement ≠ placement := by
  obtain ⟨entry, hentry, rfl⟩ := List.mem_map.mp hspawns
  obtain ⟨hmem, hsource⟩ := List.mem_filter.mp hentry
  obtain ⟨member, -, hcase⟩ := exists_of_forall₂ (sourced_of_mapM hsources) hmem
  cases hcase with
  | spawn hunkept =>
    rcases hunkept with hrespawns | hunkept
    · exact absurd (hrespawns.symm.trans hkeeps) (by decide)
    · exact hunkept id record hget
  | enter _ _ _ _ _ => simp at hsource
  | skip _ _ _ _ => simp at hsource

theorem nodup_spawning (hauthored : spec.Authored)
    (hprepare : prepare world spec mode = .ok prepared)
    (hsources : Result.mapM (sourceOf world prepared) prepared.pending = .ok sources) :
    (spawning sources).Nodup := by
  obtain ⟨-, placements, hresolve, hread⟩ := pending_of_prepare hprepare
  have hsourced : sources.map (fun entry ↦ entry.1.placement) =
      prepared.pending.map Pending.placement := by
    refine List.Forall₂.rec rfl (fun {member entry _ _} hcase _ ih ↦ ?_) (sourced_of_mapM hsources)
    rw [List.map_cons, List.map_cons, ih]
    cases hcase with
    | spawn _ => rfl
    | enter _ _ _ _ hplacement => rw [hplacement]
    | skip _ _ _ _ => rfl
  have hpending : prepared.pending.map Pending.placement =
      placements.map fun resolved ↦ resolved.2.placement.id := by
    refine List.Forall₂.rec rfl (fun {resolved member _ _} hmember _ ih ↦ ?_) hread
    rw [List.map_cons, List.map_cons, ih]
    simp only [readPending, Result.bind_ok_iff, Result.pure_ok_iff] at hmember
    obtain ⟨_, -, _, -, rfl⟩ := hmember
    rfl
  have hresolved : (placements.map fun resolved ↦ resolved.2.placement.id) =
      spec.encounter.participants.map EncounterParticipant.placement := by
    refine List.Forall₂.rec rfl (fun {participant resolved _ _} hmember _ ih ↦ ?_)
      (Result.mapM_eq_ok_iff.mp hresolve)
    rw [List.map_cons, List.map_cons, ih]
    simp only [Result.bind_eq_ok_iff, Result.okOr_eq_ok_iff, Result.ok.injEq] at hmember
    obtain ⟨found, hfound, rfl⟩ := hmember
    rw [hauthored.placements participant.placement found hfound]
  refine List.Nodup.sublist (List.filter_sublist.map _) ?_
  rw [hsourced, hpending, hresolved]
  exact hauthored.participants

end Start

/-! ### Runs -/

/-- The worlds the operations of the simulation reach when every encounter is started from validated
documents. -/
abbrev Conducted : World → Prop := ReachableBy EncounterSpec.Authored

def Placed (world : World) : Prop :=
  ∀ first second, Keeps world.respawns world first → Keeps world.respawns world second →
    first.placement = second.placement → first.entity = second.entity

section Placed

variable {world next : World}

theorem placementHeld_of_keeps {respawns : Bool} {creature : Persistent}
    (hkeeps : Keeps respawns world creature) : placementHeld world creature.placement = true := by
  rw [placementHeld, Bool.or_eq_true, List.any_eq_true, List.any_eq_true]
  rcases hkeeps with ⟨record, hget, hplacement, -⟩ | ⟨combatant, hget, -, hplacement, -⟩
  · exact Or.inl ⟨record, IndexMap.mem_values_iff.mpr ⟨_, hget⟩, decide_eq_true hplacement⟩
  · exact Or.inr ⟨combatant, IndexMap.mem_values_iff.mpr ⟨_, hget⟩, decide_eq_true hplacement⟩

/-- Nobody joins. -/
theorem Placed.of_imp (hplaced : Placed world)
    (hkept : ∀ creature, Keeps next.respawns next creature →
      ∃ dead, Keeps world.respawns world ⟨creature.entity, creature.placement, dead⟩) :
    Placed next := by
  intro first second hfirst hsecond hsame
  obtain ⟨dead, hfirst⟩ := hkept first hfirst
  obtain ⟨dead', hsecond⟩ := hkept second hsecond
  exact hplaced ⟨first.entity, first.placement, dead⟩ ⟨second.entity, second.placement, dead'⟩
    hfirst hsecond hsame

theorem Placed.join (hplaced : Placed world) (id : EntityId)
    (hjoins : ∀ creature, Keeps next.respawns next creature → Keeps world.respawns world creature ∨
      creature.entity = id ∧ placementHeld world creature.placement ≠ true) : Placed next := by
  intro first second hfirst hsecond hsame
  rcases hjoins first hfirst with hold | ⟨hnew, hfree⟩ <;>
    rcases hjoins second hsecond with hother | ⟨hnew', hfree'⟩
  · exact hplaced first second hold hother hsame
  · exact absurd (hsame ▸ placementHeld_of_keeps hold) hfree'
  · exact absurd (hsame.symm ▸ placementHeld_of_keeps hother) hfree
  · exact hnew.trans hnew'.symm

theorem Placed.start (hplaced : Placed world) (hreachable : Reachable world) {spec : EncounterSpec}
    (hauthored : spec.Authored) {mode : EncounterMode} {facts : StartFacts}
    (hstart : startEncounterInModeTracked world spec mode = .ok (facts, next)) : Placed next := by
  have hcoherent := coherent_of_reachable hreachable
  have hnobody := (hcoherent.released (started_of_start hstart).idle).1
  obtain ⟨prepared, sources, spawned, hprepare, hsources, hplacements, -, -, hkeeps⟩ := keeps_start
    (mortal_of_reachable hreachable) (grounded_of_reachable hreachable) hcoherent hstart
  have hnodup : (spawned.map Prod.snd).Nodup := by
    rw [hplacements]
    exact nodup_spawning hauthored hprepare hsources
  have hfree (old new : Persistent) (hold : Keeps world.respawns world old)
      (hrules : prepared.lifecycle.respawns = false)
      (hnew : (new.entity, new.placement) ∈ spawned) : old.placement ≠ new.placement := by
    rcases hold with ⟨record, hget, hplacement, -⟩ | ⟨combatant, hget, -⟩
    · rw [← hplacement]
      refine unkept_of_spawning hsources hrules ?_ _ record hget
      exact hplacements ▸ List.mem_map_of_mem hnew
    · have hmem := IndexMap.mem_keys_iff.mpr ⟨combatant, hget⟩
      exact absurd (hnobody ▸ hmem) List.not_mem_nil
  intro first second hfirst hsecond hsame
  rcases (hkeeps first).mp hfirst with hold | ⟨hrules, -, hnew⟩ <;>
    rcases (hkeeps second).mp hsecond with hother | ⟨hrules', -, hnew'⟩
  · exact hplaced first second hold hother hsame
  · exact absurd hsame (hfree first second hold hrules' hnew')
  · exact absurd hsame.symm (hfree second first hother hrules hnew)
  · have heq := List.inj_on_of_nodup_map hnodup hnew hnew' hsame
    exact congrArg Prod.fst heq

theorem placed_of_conducted (hconducted : Conducted world) : Placed world := by
  have hnobody (seed : UInt64) : Placed (World.new seed) := by
    rintro first second (⟨_, hnone, -⟩ | ⟨_, hnone, -⟩) <;> cases hnone
  induction hconducted with
  | new seed => exact hnobody seed
  | newInArea seed area =>
    exact (hnobody seed).of_imp fun creature hkeeps ↦ ⟨creature.dead, hkeeps⟩
  | spawn before returned ih =>
    obtain ⟨-, -, -, hcreatures, hcombatants, hcombat, -⟩ :=
      spawn_fresh (grounded_of_reachable before.reachable) returned
    refine ih.of_imp fun creature hkeeps ↦ ⟨creature.dead, ?_⟩
    rw [keeps_rules (Or.inl (lifecycle_congr hcombat))] at hkeeps
    exact (keeps_congr hcombatants hcreatures).mp hkeeps
  | despawn before returned ih =>
    refine ih.of_imp fun creature hkeeps ↦ ⟨creature.dead, ?_⟩
    exact ((keeps_despawn (coherent_of_reachable before.reachable)
      (grounded_of_reachable before.reachable) returned).mp hkeeps).1
  | @register _ _ spec id before returned ih =>
    obtain ⟨hheld, -, hcombat, hkeeps⟩ :=
      keeps_register (grounded_of_reachable before.reachable) returned
    refine ih.join id fun creature hkept ↦ ?_
    rw [keeps_rules (Or.inl (lifecycle_congr hcombat)), hkeeps] at hkept
    exact hkept.imp_right fun heq ↦ by rw [heq]; exact ⟨rfl, hheld⟩
  | start before returned authored ih => exact ih.start before.reachable authored returned
  | perform before returned ih =>
    refine ih.of_imp fun creature hkeeps ↦ ?_
    rw [keeps_rules (Or.inl (performActionTracked_lifecycle returned))] at hkeeps
    exact keeps_placement_harmed
      (performActionTracked_harmed (coherent_of_reachable before.reachable) returned)
      (performActionTracked_controlled returned).1.creatures hkeeps
  | requestMode before returned ih =>
    refine ih.of_imp fun creature hkeeps ↦ ⟨creature.dead, ?_⟩
    exact (keeps_requestMode returned creature).mp hkeeps
  | tick before returned ih =>
    refine ih.of_imp fun creature hkeeps ↦ ?_
    rw [keeps_rules (Or.inl (tickTracked_lifecycle returned))] at hkeeps
    exact keeps_placement_harmed
      (tickTracked_harmed (coherent_of_reachable before.reachable) returned)
      (tickTracked_controlled returned).1.creatures hkeeps
  | transferOut sourceBefore destinationBefore returned ihSource _ =>
    obtain ⟨hleft, -⟩ := keeps_transfer (coherent_of_reachable sourceBefore.reachable)
      (grounded_of_reachable sourceBefore.reachable)
      (grounded_of_reachable destinationBefore.reachable) returned
    exact ihSource.of_imp fun creature hkeeps ↦ ⟨creature.dead, ((hleft creature).mp hkeeps).1⟩
  | @transferIn _ _ _ _ _ moved sourceBefore destinationBefore returned _ ihDestination =>
    obtain ⟨-, -, hcombat, hheld, hkeeps⟩ :=
      keeps_transfer (coherent_of_reachable sourceBefore.reachable)
        (grounded_of_reachable sourceBefore.reachable)
        (grounded_of_reachable destinationBefore.reachable) returned
    refine ihDestination.join moved fun creature hkept ↦ ?_
    rw [keeps_rules (Or.inl (lifecycle_congr hcombat)), hkeeps] at hkept
    exact hkept.imp_right fun hmoved ↦ ⟨hmoved.1, hheld _ _ hmoved.2⟩
  | endEncounter before returned ih =>
    refine ih.of_imp fun creature hkeeps ↦ ⟨creature.dead, ?_⟩
    exact (keeps_endEncounter (mortal_of_reachable before.reachable) returned creature).mp hkeeps

end Placed

/-! ### The population -/

section Population

variable {world next : World}

theorem contains_of_mem_population (hgrounded : Grounded world) {creature : EntityId × Ulid}
    (hmem : creature ∈ world.population) : world.entities.contains creature.1 = true :=
  contains_of_keeps hgrounded (mem_population.mp hmem)

theorem population_add {joined : Multiset (EntityId × Ulid)} (hmortal : Mortal world)
    (hgrounded : Grounded world) (hnext : Mortal next) (hjoined : joined.Nodup)
    (hfresh : ∀ creature ∈ joined, world.entities.contains creature.1 = false)
    (hkeeps : ∀ entity placement, Keeps next.respawns next ⟨entity, placement, false⟩ ↔
      Keeps world.respawns world ⟨entity, placement, false⟩ ∨ (entity, placement) ∈ joined) :
    next.population = world.population + joined := by
  refine (Multiset.Nodup.ext (nodup_population hnext) ?_).mpr ?_
  · refine Multiset.nodup_add.mpr ⟨nodup_population hmortal, hjoined, ?_⟩
    refine Multiset.disjoint_left.mpr fun hold hnew ↦ ?_
    have hlive := contains_of_mem_population hgrounded hold
    exact absurd (hlive.symm.trans (hfresh _ hnew)) (by decide)
  · rintro ⟨entity, placement⟩
    rw [mem_population, hkeeps, Multiset.mem_add, mem_population]

theorem population_filter (hmortal : Mortal world) (hnext : Mortal next) {id : EntityId}
    (hkeeps : ∀ creature, Keeps next.respawns next creature ↔
      Keeps world.respawns world creature ∧ creature.entity ≠ id) :
    next.population = world.population.filter fun creature ↦ creature.1 ≠ id := by
  refine (Multiset.Nodup.ext (nodup_population hnext)
    ((nodup_population hmortal).filter _)).mpr ?_
  rintro ⟨entity, placement⟩
  rw [mem_population, hkeeps, Multiset.mem_filter, mem_population]

theorem population_harmed (hmortal : Mortal world) (hnext : Mortal next)
    (hharmed : Harmed world next) (hcreatures : next.creatures = world.creatures)
    (hrules : next.lifecycle = world.lifecycle) :
    ∃ killed, world.population = next.population + killed ∧
      ∀ creature ∈ killed, Dies world next creature.1 := by
  have hmem (entity : EntityId) (placement : Ulid) : (entity, placement) ∈ next.population ↔
      (entity, placement) ∈ world.population ∧ ¬Dies world next entity := by
    rw [mem_population, keeps_rules (Or.inl hrules), keeps_harmed hharmed hcreatures hmortal,
      mem_population]
  have hle : next.population ≤ world.population :=
    (Multiset.le_iff_subset (nodup_population hnext)).mpr fun creature hkept ↦
      ((hmem creature.1 creature.2).mp hkept).1
  obtain ⟨killed, hkilled⟩ := Multiset.le_iff_exists_add.mp hle
  refine ⟨killed, hkilled, ?_⟩
  rintro ⟨entity, placement⟩ hmember
  have hdisjoint := (Multiset.nodup_add.mp (hkilled ▸ nodup_population hmortal)).2.2
  by_contra hlives
  refine Multiset.disjoint_right.mp hdisjoint hmember ((hmem entity placement).mpr ⟨?_, hlives⟩)
  rw [hkilled]
  exact Multiset.mem_add.mpr (Or.inr hmember)

end Population

/-- What holds of the creatures of one world: nobody both fights and has a record, everybody who
does either is live, and nobody counts twice. -/
structure WellKept (world : World) : Prop where
  apart : ∀ id ∈ world.combatants.keys, id ∉ world.creatures.keys
  live : ∀ id, id ∈ world.creatures.keys ∨ id ∈ world.combatants.keys → world.contains id = true
  single : world.population.Nodup

/-- No placement is kept twice. -/
structure PlacedOnce (world : World) : Prop where
  records : (world.creatures.values.map CreatureState.placement).Nodup
  combatants : ∀ combat, world.combat = some combat → combat.lifecycle.respawns = false →
    (world.combatants.values.map Combatant.placement).Nodup
  population : (world.population.map Prod.snd).Nodup

structure Conserves (world : World) : Prop where
  spawn : ∀ data id next, world.spawn data = some (id, next) → next.population = world.population
  register : ∀ spec id next, registerCreature world spec = .ok (id, next) →
    next.population = (id, spec.placement.id) ::ₘ world.population
  start : ∀ spec mode facts next, startEncounterInModeTracked world spec mode = .ok (facts, next) →
    ∃ prepared sources, prepare world spec mode = .ok prepared ∧
      Result.mapM (sourceOf world prepared) prepared.pending = .ok sources ∧
      ∃ spawned : Multiset (EntityId × Ulid), next.population = world.population + spawned ∧
        (∀ creature ∈ spawned, world.contains creature.1 = false) ∧
        spawned.map Prod.snd =
          ↑(if prepared.lifecycle.respawns then [] else spawning sources)
  perform : ∀ action facts next, performActionTracked world action = .ok (facts, next) →
    ∃ killed, world.population = next.population + killed ∧
      ∀ creature ∈ killed, Dies world next creature.1
  requestMode : ∀ mode next, requestMode world mode = .ok next →
    next.population = world.population
  tick : ∀ facts next, tickTracked world = .ok (facts, next) →
    ∃ killed, world.population = next.population + killed ∧
      ∀ creature ∈ killed, Dies world next creature.1
  endEncounter : ∀ summary next, endEncounter world = .ok (summary, next) →
    next.population = world.population
  despawn : ∀ id facts next, despawnTracked world id = .ok (facts, next) →
    next.population = world.population.filter fun creature ↦ creature.1 ≠ id
  transfer : ∀ destination, Reachable destination → ∀ entity moved left entered,
    transferEntity world destination entity = .ok (moved, left, entered) →
      left.population = (world.population.filter fun creature ↦ creature.1 ≠ entity) ∧
      entered.population = destination.population +
        (world.population.filter fun creature ↦ creature.1 = entity).map fun creature ↦
          (moved, creature.2)

theorem nodup_map_values {κ ν μ : Type} [DecidableEq κ] {map : IndexMap κ ν} {label : ν → μ}
    (hinj : ∀ first second a b, map.get? first = some a → map.get? second = some b →
      label a = label b → first = second) : (map.values.map label).Nodup := by
  rw [IndexMap.values, List.map_map]
  refine List.Nodup.map_on ?_ (List.Nodup.of_map Prod.fst map.nodup)
  rintro ⟨first, a⟩ hfirst ⟨second, b⟩ hsecond hsame
  rw [IndexMap.mem_entries_iff] at hfirst hsecond
  obtain rfl := hinj first second a b hfirst hsecond hsame
  rw [Option.some.inj (hfirst.symm.trans hsecond)]

theorem wellKept_of_reachable {world : World} (hreachable : Reachable world) : WellKept world := by
  have hmortal := mortal_of_reachable hreachable
  have hgrounded := grounded_of_reachable hreachable
  refine ⟨hmortal.apart, fun id hid ↦ ?_, nodup_population hmortal⟩
  exact hid.elim (hgrounded.creatures id) (hgrounded.combatants id)

theorem placedOnce_of_conducted {world : World} (hconducted : Conducted world) :
    PlacedOnce world := by
  have hplaced := placed_of_conducted hconducted
  refine ⟨?_, fun combat hcombat hkeeps ↦ ?_, ?_⟩
  · refine nodup_map_values fun first second a b hfirst hsecond hsame ↦ ?_
    exact hplaced ⟨first, a.placement, a.dead⟩ ⟨second, b.placement, b.dead⟩
      (Or.inl ⟨a, hfirst, rfl, rfl⟩) (Or.inl ⟨b, hsecond, rfl, rfl⟩) hsame
  · have hrules : world.respawns = false := by
      rw [World.respawns, World.lifecycle, hcombat]
      exact hkeeps
    refine nodup_map_values fun first second a b hfirst hsecond hsame ↦ ?_
    refine hplaced ⟨first, a.placement, a.dead⟩ ⟨second, b.placement, b.dead⟩
      (Or.inr ⟨a, hfirst, ?_, rfl, rfl⟩) (Or.inr ⟨b, hsecond, ?_, rfl, rfl⟩) hsame
    · rw [hrules, Bool.not_false, Bool.or_true]
    · rw [hrules, Bool.not_false, Bool.or_true]
  · refine Multiset.Nodup.map_on ?_ (nodup_population (mortal_of_reachable hconducted.reachable))
    rintro ⟨first, placement⟩ hfirst ⟨second, other⟩ hsecond hsame
    obtain rfl : placement = other := hsame
    rw [mem_population] at hfirst hsecond
    exact Prod.ext (hplaced _ _ hfirst hsecond rfl) rfl

theorem conserves_of_reachable {world : World} (hreachable : Reachable world) :
    Conserves world := by
  have hmortal := mortal_of_reachable hreachable
  have hgrounded := grounded_of_reachable hreachable
  have hcoherent := coherent_of_reachable hreachable
  refine ⟨?spawn, ?register, ?start, ?perform, ?requestMode, ?tick, ?endEncounter, ?despawn,
    ?transfer⟩
  case spawn =>
    intro data id next hspawn
    obtain ⟨-, -, -, hcreatures, hcombatants, hcombat, -⟩ := spawn_fresh hgrounded hspawn
    refine population_eq_of_keeps hmortal (hmortal.spawn hgrounded hspawn).1 fun creature ↦ ?_
    rw [keeps_rules (Or.inl (lifecycle_congr hcombat)), keeps_congr hcombatants hcreatures]
  case register =>
    intro spec id next hregister
    obtain ⟨-, hfresh, hcombat, hkeeps⟩ := keeps_register hgrounded hregister
    rw [← Multiset.singleton_add, add_comm]
    refine population_add hmortal hgrounded
      (mortal_of_reachable (.register hreachable hregister)) (Multiset.nodup_singleton _)
      (fun creature hmem ↦ ?_) fun entity placement ↦ ?_
    · rw [Multiset.mem_singleton.mp hmem]
      exact hfresh
    · rw [keeps_rules (Or.inl (lifecycle_congr hcombat)), hkeeps, Multiset.mem_singleton]
      simp
  case start =>
    intro spec mode facts next hstart
    obtain ⟨prepared, sources, spawned, hprepare, hsources, hplacements, hnodup, hfresh, hkeeps⟩ :=
      keeps_start hmortal hgrounded hcoherent hstart
    have hnext := mortal_of_reachable (.start hreachable hstart trivial)
    refine ⟨prepared, sources, hprepare, hsources, ?_⟩
    cases hrules : prepared.lifecycle.respawns with
    | true =>
      refine ⟨0, ?_, fun _ hnone ↦ absurd hnone (Multiset.notMem_zero _), rfl⟩
      rw [add_zero]
      refine population_eq_of_keeps hmortal hnext fun creature ↦ ?_
      rw [hkeeps, hrules]
      simp
    | false =>
      refine ⟨spawned, ?_, hfresh, ?_⟩
      · refine population_add hmortal hgrounded hnext
          (Multiset.coe_nodup.mpr (List.Nodup.of_map Prod.fst hnodup)) hfresh
          fun entity placement ↦ ?_
        rw [hkeeps, hrules]
        simp
      · rw [Multiset.map_coe, hplacements]
        rfl
  case perform =>
    intro action facts next hperform
    exact population_harmed hmortal (mortal_of_reachable (.perform hreachable hperform))
      (performActionTracked_harmed hcoherent hperform)
      (performActionTracked_controlled hperform).1.creatures
      (performActionTracked_lifecycle hperform)
  case requestMode =>
    intro mode next hrequest
    exact population_eq_of_keeps hmortal (mortal_of_reachable (.requestMode hreachable hrequest))
      (keeps_requestMode hrequest)
  case tick =>
    intro facts next htick
    exact population_harmed hmortal (mortal_of_reachable (.tick hreachable htick))
      (tickTracked_harmed hcoherent htick) (tickTracked_controlled htick).1.creatures
      (tickTracked_lifecycle htick)
  case endEncounter =>
    intro summary next hend
    exact population_eq_of_keeps hmortal (mortal_of_reachable (.endEncounter hreachable hend))
      (keeps_endEncounter hmortal hend)
  case despawn =>
    intro id facts next hdespawn
    exact population_filter hmortal (mortal_of_reachable (.despawn hreachable hdespawn))
      fun creature ↦ keeps_despawn hcoherent hgrounded hdespawn
  case transfer =>
    intro destination hdestination entity moved left entered htransfer
    have hmortal' := mortal_of_reachable hdestination
    have hgrounded' := grounded_of_reachable hdestination
    obtain ⟨hleft, hfresh, hcombat, -, hkeeps⟩ :=
      keeps_transfer hcoherent hgrounded hgrounded' htransfer
    obtain ⟨hmortalLeft, hmortalEntered⟩ :=
      hmortal.transferEntity hgrounded hcoherent hmortal' hgrounded' htransfer
    refine ⟨population_filter hmortal hmortalLeft hleft, ?_⟩
    refine population_add hmortal' hgrounded' hmortalEntered ?_ (fun creature hmem ↦ ?_)
      fun other placement ↦ ?_
    · refine Multiset.Nodup.map_on ?_ ((nodup_population hmortal).filter _)
      rintro ⟨_, placement⟩ hfirst ⟨_, _⟩ hsecond hsame
      obtain ⟨-, rfl⟩ := Multiset.mem_filter.mp hfirst
      obtain ⟨-, hentity⟩ := Multiset.mem_filter.mp hsecond
      obtain rfl := congrArg Prod.snd hsame
      exact Prod.ext hentity.symm rfl
    · obtain ⟨_, -, rfl⟩ := Multiset.mem_map.mp hmem
      exact hfresh
    · rw [keeps_rules (Or.inl (lifecycle_congr hcombat)), hkeeps, Multiset.mem_map]
      refine or_congr Iff.rfl ?_
      constructor
      · rintro ⟨rfl, hmoved⟩
        exact ⟨(entity, placement), Multiset.mem_filter.mpr ⟨mem_population.mpr hmoved, rfl⟩, rfl⟩
      · rintro ⟨⟨_, _⟩, hmem, hsame⟩
        obtain ⟨hold, rfl⟩ := Multiset.mem_filter.mp hmem
        cases hsame
        exact ⟨rfl, mem_population.mp hold⟩

/-- In every reachable world nobody both fights and has a record and everybody who does either is
live; and every operation changes the living creatures by those it registers, spawns, kills,
despawns or transfers, and by no other. Where every encounter is started from validated documents,
no placement is kept twice. -/
theorem creature_lifecycle {world : World} (hreachable : Reachable world) :
    WellKept world ∧ Conserves world ∧ (Conducted world → PlacedOnce world) :=
  ⟨wellKept_of_reachable hreachable, conserves_of_reachable hreachable, placedOnce_of_conducted⟩

/-- The running duel keeps both duelists. -/
theorem duel_population : ∃ world, Conducted world ∧ WellKept world ∧ Conserves world ∧
    PlacedOnce world ∧ world.population = {(⟨0, 1⟩, 20), (⟨1, 1⟩, 21)} := by
  obtain ⟨⟨facts, world⟩, hstart, hworld⟩ := Result.isOkAnd_iff.mp
    (show duelStart.isOkAnd (fun started ↦ decide (started.2.population =
      {(⟨0, 1⟩, 20), (⟨1, 1⟩, 21)})) = true by decide +kernel)
  have hauthored : duelSpec.Authored := by
    refine ⟨by decide, fun id resolved hget ↦ ?_⟩
    rw [duelSpec, BTreeMap.get?_insert, BTreeMap.get?_insert] at hget
    split_ifs at hget with hfirst hsecond
    · cases hget
      exact hfirst.symm
    · cases hget
      exact hsecond.symm
    · cases hget
  have hconducted : Conducted world := .start (.new 0) hstart hauthored
  obtain ⟨hkept, hconserves, honce⟩ := creature_lifecycle hconducted.reachable
  exact ⟨world, hconducted, hkept, hconserves, honce hconducted, of_decide_eq_true hworld⟩

end Crpg.Sim
