import Crpg.Sim.Boundary

/-!
# Live identities

The controller works inside one set of entities: it mints and removes none, keeps every combatant
under its identity, and the events and facts it reports name combatants (`Controlled`, `TurnKnown`).
Minting and removal happen in the operations around it. `Grounded` says that every component and
every queued event belongs to an identity the arena issued; each operation keeps it.
-/

set_option autoImplicit false

namespace Crpg.Sim

open Crpg.Core Crpg.Lib Crpg.Rules Crpg.Data
open Result (bind_eq_ok_iff bind_ok_iff expect_eq_ok_iff pure_ok_iff)

/-! ### The footprint of the controller -/

def SimEvent.entity : SimEvent → EntityId
  | .spawned entity => entity
  | .despawned entity => entity
  | .died entity => entity

/-- What the controller leaves of a world; a new event names a combatant. -/
structure Controlled (before after : World) : Prop where
  entities : after.entities = before.entities
  transforms : after.transforms = before.transforms
  tick : after.tick = before.tick
  area : after.area = before.area
  creatures : after.creatures = before.creatures
  keys : after.combatants.keys = before.combatants.keys
  events : ∀ envelope ∈ after.events.envelopes,
    envelope ∈ before.events.envelopes ∨ envelope.payload.entity ∈ before.combatants.keys

namespace Controlled

variable {first second third : World}

theorem refl (world : World) : Controlled world world :=
  ⟨rfl, rfl, rfl, rfl, rfl, rfl, fun _ ↦ Or.inl⟩

theorem trans (hfirst : Controlled first second) (hsecond : Controlled second third) :
    Controlled first third where
  entities := hsecond.entities.trans hfirst.entities
  transforms := hsecond.transforms.trans hfirst.transforms
  tick := hsecond.tick.trans hfirst.tick
  area := hsecond.area.trans hfirst.area
  creatures := hsecond.creatures.trans hfirst.creatures
  keys := hsecond.keys.trans hfirst.keys
  events := by
    intro envelope henvelope
    rcases hsecond.events envelope henvelope with hold | hnew
    · exact hfirst.events envelope hold
    · exact Or.inr (hfirst.keys ▸ hnew)

theorem of_keys (world : World) (timeline : Timeline) (combat : Option CombatState)
    {combatants : ComponentStore Combatant} (hkeys : combatants.keys = world.combatants.keys) :
    Controlled world { world with
      timeline := timeline
      combatants := combatants
      combat := combat } :=
  ⟨rfl, rfl, rfl, rfl, rfl, hkeys, fun _ ↦ Or.inl⟩

end Controlled

theorem turnKnown_none (world : World) : TurnKnown world TransitionFacts.none := nofun

/-- A pass works inside the combatants. -/
theorem Passed.controlled {strict : Prop} {before after : World}
    (hpassed : Passed strict before after) : Controlled before after := by
  have hkeys := hpassed.keys
  obtain ⟨timeline, combatants, combat, rfl⟩ := hpassed.frame
  exact Controlled.of_keys before timeline combat hkeys

/-! ### Actions -/

variable {world next : World}

theorem resolveUse_controlled {actor target : EntityId} {ability : Ulid} {outcome : ActionOutcome}
    (hresolve : resolveUse world actor ability target = .ok (outcome, next)) :
    Controlled world next := by
  obtain ⟨⟨-, -⟩, -, htarget⟩ := resolveUse_names hresolve
  obtain ⟨_, _, _, combatants, rfl, hkept, hdeaths⟩ := resolveUse_frame hresolve
  refine ⟨rfl, rfl, rfl, rfl, rfl, hkept.keys_eq, fun envelope henvelope ↦ ?_⟩
  refine (hdeaths envelope henvelope).imp_right fun hdied ↦ ?_
  rw [hdied]
  exact htarget

theorem modifyCombatant_controlled (world : World) (id : EntityId)
    (transform : Combatant → Combatant) : Controlled world (world.modifyCombatant id transform) :=
  Controlled.of_keys world world.timeline world.combat (IndexMap.keys_modify _)

def OutcomeKnown (world : World) (outcome : ActionOutcome) : Prop :=
  outcome.actor ∈ world.combatants.keys ∧ outcome.target ∈ world.combatants.keys

theorem outcomeKnown_of_resolveUse {actor target : EntityId} {ability : Ulid}
    {outcome : ActionOutcome}
    (hresolve : resolveUse world actor ability target = .ok (outcome, next)) :
    OutcomeKnown world outcome := by
  obtain ⟨⟨rfl, hactor⟩, rfl, htarget⟩ := resolveUse_names hresolve
  exact ⟨hactor, htarget⟩

/-- An accepted action works inside the combatants. -/
theorem performActionTracked_controlled {action : CombatAction} {produced : Option ActionOutcome}
    {facts : TransitionFacts}
    (hperform : performActionTracked world action = .ok ((produced, facts), next)) :
    Controlled world next ∧ (∀ outcome, produced = some outcome → OutcomeKnown world outcome) ∧
      TurnKnown world facts := by
  rcases performActionTracked_cases False.elim hperform with ⟨rfl, htransits⟩ |
    ⟨outcome, resolved, rfl, ⟨actor, ability, target, -, -, hresolve⟩, htransits⟩
  · exact ⟨htransits.passed.controlled, nofun, htransits.turn⟩
  · have hresolved := resolveUse_controlled hresolve
    refine ⟨hresolved.trans htransits.passed.controlled, fun other hother ↦ ?_,
      fun turn hsome ↦ hresolved.keys ▸ htransits.turn turn hsome⟩
    rw [← Option.some.inj hother]
    exact outcomeKnown_of_resolveUse hresolve

theorem requestMode_controlled {mode : EncounterMode}
    (hrequest : requestMode world mode = .ok next) : Controlled world next := by
  have hpassed : Passed False world next := requestMode_passed hrequest
  exact hpassed.controlled

/-! ### The tick -/

/-- A fact of an execution pass names combatants. -/
def TickEventKnown (world : World) : TickEvent → Prop
  | .resolved outcome => OutcomeKnown world outcome
  | .orderEnded actor => actor ∈ world.combatants.keys

theorem tickEventKnown_congr {before after : World} (hcontrolled : Controlled before after)
    {event : TickEvent} : TickEventKnown after event ↔ TickEventKnown before event := by
  cases event <;> simp [TickEventKnown, OutcomeKnown, hcontrolled.keys]

theorem executeOrder_controlled {elapsed roundTicks : ℕ} {actor : EntityId}
    {order : StandingOrder} {event : TickEvent} (hactor : actor ∈ world.combatants.keys)
    (hexecute : executeOrder elapsed roundTicks world actor order = .ok (event, next)) :
    Controlled world next ∧ TickEventKnown world event := by
  obtain ⟨-, ⟨rfl, hpassed⟩ |
    ⟨outcome, resolved, rfl, ⟨actor, ability, target, -, -, hresolve⟩, hpassed⟩⟩ :=
    executeOrder_cases False hexecute
  · exact ⟨hpassed.controlled, hactor⟩
  · exact ⟨(resolveUse_controlled hresolve).trans hpassed.controlled,
      outcomeKnown_of_resolveUse hresolve⟩

theorem executionStage_controlled {before : TransitionFacts} {facts : TickFacts}
    (hstage : executionStage world before = .ok (facts, next)) :
    Controlled world next ∧ facts.transitions.turnStarted = before.turnStarted ∧
      ∀ event ∈ facts.events, TickEventKnown world event := by
  have hexecuted := executionStage_induct
    (motive := fun events state ↦ Controlled world state ∧
      ∀ event ∈ events, TickEventKnown world event)
    ⟨Controlled.refl world, fun _ hnone ↦ absurd hnone List.not_mem_nil⟩ ?_ hstage
  · refine ⟨hexecuted.1.1, ?_, hexecuted.1.2⟩
    rcases hexecuted.2 with ⟨hsame, -⟩ | ⟨-, _, -, hended⟩
    · rw [hsame]
    · rw [hended]
  · intro _ _ events state after actor order event hstate _ hactor hexecute
    obtain ⟨hcontrolled, hevent⟩ := executeOrder_controlled hactor hexecute
    refine ⟨hstate.1.trans hcontrolled, fun other hother ↦ ?_⟩
    rcases List.mem_append.mp hother with hold | hnew
    · exact hstate.2 other hold
    · rw [List.mem_singleton.mp hnew]
      exact (tickEventKnown_congr hstate.1).mp hevent

/-- A tick advances the counter and otherwise works inside the combatants. -/
theorem tickTracked_controlled {facts : TickFacts} (htick : tickTracked world = .ok (facts, next)) :
    Controlled world.advanceTick next ∧ TurnKnown world facts.transitions ∧
      ∀ event ∈ facts.events, TickEventKnown world event := by
  unfold tickTracked at htick
  obtain ⟨⟨before, staged⟩, hclock, hexecute⟩ := bind_eq_ok_iff.mp htick
  have htransits := clockStage_transits False.elim hclock
  have hstaged := htransits.passed.controlled
  obtain ⟨hexecuted, hturn, hevents⟩ := executionStage_controlled hexecute
  refine ⟨hstaged.trans hexecuted, fun turn hsome ↦ ?_, fun event hevent ↦ ?_⟩
  · exact htransits.turn turn (hturn ▸ hsome)
  · exact (tickEventKnown_congr hstaged).mp (hevents event hevent)

/-! ### Grounded worlds -/

/-- The identities an arena issues. -/
def EntityId.Issuable (id : EntityId) : Prop :=
  id.generation ≠ 0 ∧ id.generation ≠ retiredGeneration

/-- Every component belongs to a live identity, and every queued event names an issued one. -/
structure Grounded (world : World) : Prop where
  arena : world.entities.WellFormed
  transforms : ∀ id ∈ world.transforms.keys, world.entities.contains id = true
  combatants : ∀ id ∈ world.combatants.keys, world.entities.contains id = true
  creatures : ∀ id ∈ world.creatures.keys, world.entities.contains id = true
  events : ∀ envelope ∈ world.events.envelopes, EntityId.Issuable envelope.payload.entity

namespace Grounded

variable {world next : World}

theorem new (seed : UInt64) : Grounded (World.new seed) where
  arena := GenerationalArena.wellFormed_new
  transforms := fun _ hnone ↦ absurd hnone List.not_mem_nil
  combatants := fun _ hnone ↦ absurd hnone List.not_mem_nil
  creatures := fun _ hnone ↦ absurd hnone List.not_mem_nil
  events := fun _ hnone ↦ absurd hnone List.not_mem_nil

section

variable (hgrounded : Grounded world)
include hgrounded

variable {id : EntityId}

theorem issuable (hlive : world.entities.contains id = true) : EntityId.Issuable id :=
  hgrounded.arena.generation_issued hlive

theorem issuable_combatant (hid : id ∈ world.combatants.keys) : EntityId.Issuable id :=
  hgrounded.issuable (hgrounded.combatants id hid)

theorem controlled (hcontrolled : Controlled world next) : Grounded next := by
  refine ⟨hcontrolled.entities ▸ hgrounded.arena, ?_, ?_, ?_, fun envelope henvelope ↦ ?_⟩
  · rw [hcontrolled.entities, hcontrolled.transforms]
    exact hgrounded.transforms
  · rw [hcontrolled.entities, hcontrolled.keys]
    exact hgrounded.combatants
  · rw [hcontrolled.entities, hcontrolled.creatures]
    exact hgrounded.creatures
  · rcases hcontrolled.events envelope henvelope with hold | hnew
    · exact hgrounded.events envelope hold
    · exact hgrounded.issuable_combatant hnew

theorem congr (hentities : next.entities = world.entities)
    (htransforms : next.transforms = world.transforms)
    (hcombatants : next.combatants.keys = world.combatants.keys)
    (hcreatures : next.creatures = world.creatures)
    (hevents : ∀ envelope ∈ next.events.envelopes, envelope ∈ world.events.envelopes) :
    Grounded next := by
  refine ⟨hentities ▸ hgrounded.arena, ?_, ?_, ?_, fun envelope henvelope ↦ ?_⟩
  · rw [hentities, htransforms]
    exact hgrounded.transforms
  · rw [hentities, hcombatants]
    exact hgrounded.combatants
  · rw [hentities, hcreatures]
    exact hgrounded.creatures
  · exact hgrounded.events envelope (hevents envelope henvelope)

theorem advanceTick : Grounded world.advanceTick :=
  hgrounded.congr rfl rfl rfl rfl fun _ ↦ id

theorem spawn {data : EntityMeta} (hspawn : world.spawn data = some (id, next)) :
    Grounded next ∧ next.entities.contains id = true := by
  obtain ⟨⟨minted, entities⟩, hinsert, hnext⟩ := Option.map_eq_some_iff.mp hspawn
  simp only [Prod.mk.injEq] at hnext
  obtain ⟨rfl, rfl⟩ := hnext
  obtain ⟨hminted, hlive⟩ := GenerationalArena.contains_insert hgrounded.arena hinsert
  have harena := GenerationalArena.wellFormed_insert hgrounded.arena hinsert
  refine ⟨⟨harena, fun id hid ↦ hlive id (hgrounded.transforms id hid),
    fun id hid ↦ hlive id (hgrounded.combatants id hid),
    fun id hid ↦ hlive id (hgrounded.creatures id hid), fun envelope henvelope ↦ ?_⟩, hminted⟩
  rcases List.mem_append.mp henvelope with hold | hnew
  · exact hgrounded.events envelope hold
  · rw [List.mem_singleton.mp hnew]
    exact harena.generation_issued hminted

/-- A live identity may carry a record. -/
theorem insertCreature {record : CreatureState} (hlive : world.entities.contains id = true) :
    Grounded { world with creatures := world.creatures.insert id record } := by
  refine ⟨hgrounded.arena, hgrounded.transforms, hgrounded.combatants, fun other hother ↦ ?_,
    hgrounded.events⟩
  rcases IndexMap.mem_keys_insert.mp hother with rfl | hold
  · exact hlive
  · exact hgrounded.creatures other hold

/-- A live identity may carry a transform. -/
theorem insertTransform {transform : Transform} (hlive : world.entities.contains id = true) :
    Grounded { world with transforms := world.transforms.insert id transform } := by
  refine ⟨hgrounded.arena, fun other hother ↦ ?_, hgrounded.combatants, hgrounded.creatures,
    hgrounded.events⟩
  rcases IndexMap.mem_keys_insert.mp hother with rfl | hold
  · exact hlive
  · exact hgrounded.transforms other hold

theorem registerCreature {spec : CreatureSpec}
    (hregister : registerCreature world spec = .ok (id, next)) : Grounded next := by
  obtain ⟨spawned, record, hspawn, rfl⟩ := registerCreature_frame hregister
  obtain ⟨hspawned, hlive⟩ := hgrounded.spawn hspawn
  exact hspawned.insertCreature hlive

theorem strip (id : EntityId) : Grounded (strip world (world.entities.remove id).2 id) := by
  have hkept {other : EntityId} (hlive : world.entities.contains other = true) (hne : other ≠ id) :=
    GenerationalArena.contains_remove_of_ne hlive hne
  refine ⟨GenerationalArena.wellFormed_remove hgrounded.arena id, fun other hother ↦ ?_,
    fun other hother ↦ ?_, fun other hother ↦ ?_, hgrounded.events⟩
  · obtain ⟨hold, hne⟩ := IndexMap.mem_keys_shiftRemove.mp hother
    exact hkept (hgrounded.transforms other hold) hne
  · obtain ⟨hold, hne⟩ := IndexMap.mem_keys_shiftRemove.mp hother
    exact hkept (hgrounded.combatants other hold) hne
  · obtain ⟨hold, hne⟩ := IndexMap.mem_keys_shiftRemove.mp hother
    exact hkept (hgrounded.creatures other hold) hne

end

end Grounded

theorem settleDespawn_controlled {stripped : World} {prior : Option CombatState} {id : EntityId}
    {facts : TransitionFacts} (hsettle : settleDespawn stripped prior id = .ok (facts, next)) :
    Controlled stripped next ∧ TurnKnown stripped facts := by
  unfold settleDespawn at hsettle
  split_ifs at hsettle
  · cases hsettle
    exact ⟨Controlled.of_keys stripped stripped.timeline none rfl, nofun⟩
  · have htransits := advanceTracked_transits False.elim hsettle
    exact ⟨htransits.passed.controlled, htransits.turn⟩
  · cases hsettle
    exact ⟨Controlled.refl next, nofun⟩

theorem despawnTracked_cases {id : EntityId} {facts : Bool × TransitionFacts}
    (hdespawn : despawnTracked world id = .ok (facts, next)) :
    (next = world ∧ facts = (false, TransitionFacts.none)) ∨
      world.entities.contains id = true ∧ ∃ settled,
        Controlled (strip world (world.entities.remove id).2 id) settled ∧
        next = { settled with events := settled.events.push settled.tick (.despawned id) } ∧
        TurnKnown (strip world (world.entities.remove id).2 id) facts.2 := by
  unfold despawnTracked at hdespawn
  split at hdespawn
  · cases hdespawn
    exact Or.inl ⟨rfl, rfl⟩
  · next value entities hremove =>
    obtain ⟨⟨transition, settled⟩, hsettle, hnext⟩ := bind_eq_ok_iff.mp hdespawn
    simp only [Result.ok.injEq, Prod.mk.injEq] at hnext
    obtain ⟨rfl, rfl⟩ := hnext
    have hentities : entities = (world.entities.remove id).2 := by rw [hremove]
    subst hentities
    obtain ⟨hcontrolled, hknown⟩ := settleDespawn_controlled hsettle
    refine Or.inr ⟨?_, settled, hcontrolled, rfl, ?_⟩
    · obtain ⟨hnone, -, -⟩ | ⟨slot, _, hslot, hgeneration, hvalue, -, -⟩ :=
        GenerationalArena.remove_cases world.entities id
      · rw [hremove] at hnone
        cases hnone
      · exact GenerationalArena.contains_iff.mpr ⟨slot, hslot, hgeneration, by rw [hvalue]; rfl⟩
    · dsimp only
      split
      · split_ifs
        · exact hknown
        · exact hknown
      · exact hknown

theorem publishMember_tick {mode : EncounterMode} {definition : CombatDefinition}
    {entry : Pending × Source} (hpublish : publishMember mode definition world entry = .ok next) :
    next.tick = world.tick := by
  unfold publishMember at hpublish
  split at hpublish
  · cases hpublish
    rfl
  · simp only [bind_ok_iff, pure_ok_iff] at hpublish
    obtain ⟨_, -, _, -, rfl⟩ := hpublish
    rfl
  · simp only [bind_ok_iff, pure_ok_iff, expect_eq_ok_iff] at hpublish
    obtain ⟨⟨_, spawned⟩, hspawn, _, -, rfl⟩ := hpublish
    obtain ⟨_, _, rfl⟩ := spawn_frame hspawn
    rfl

namespace Grounded

variable {world next : World}

theorem despawnTracked (hgrounded : Grounded world) {id : EntityId} {facts : Bool × TransitionFacts}
    (hdespawn : Crpg.Sim.despawnTracked world id = .ok (facts, next)) : Grounded next := by
  obtain ⟨rfl, -⟩ | ⟨hlive, settled, hcontrolled, rfl, -⟩ := despawnTracked_cases hdespawn
  · exact hgrounded
  · have hsettled := (hgrounded.strip id).controlled hcontrolled
    refine ⟨hsettled.arena, hsettled.transforms, hsettled.combatants, hsettled.creatures,
      fun envelope henvelope ↦ ?_⟩
    rcases List.mem_append.mp henvelope with hold | hnew
    · exact hsettled.events envelope hold
    · rw [List.mem_singleton.mp hnew]
      exact hgrounded.issuable hlive

variable {mode : EncounterMode}

theorem publish (hgrounded : Grounded world) {id : EntityId} {combatant : Combatant}
    (hlive : world.entities.contains id = true) : Grounded (publish mode world id combatant) := by
  refine ⟨hgrounded.arena, hgrounded.transforms, fun other hother ↦ ?_, hgrounded.creatures,
    hgrounded.events⟩
  rcases IndexMap.mem_keys_insert.mp hother with rfl | hold
  · exact hlive
  · exact hgrounded.combatants other hold

theorem publishMember (hgrounded : Grounded world) {definition : CombatDefinition}
    {entry : Pending × Source} (hpublish : publishMember mode definition world entry = .ok next) :
    Grounded next := by
  unfold Crpg.Sim.publishMember at hpublish
  split at hpublish
  · cases hpublish
    exact hgrounded
  · next entity _ =>
    simp only [bind_ok_iff, pure_ok_iff, expect_eq_ok_iff] at hpublish
    obtain ⟨record, hget, entered, -, rfl⟩ := hpublish
    have hlive := hgrounded.creatures entity (IndexMap.mem_keys_iff.mpr ⟨record, hget⟩)
    have htaken : Grounded { world with creatures := world.creatures.shiftRemove entity } :=
      ⟨hgrounded.arena, hgrounded.transforms, hgrounded.combatants,
        fun other hother ↦ hgrounded.creatures other (IndexMap.mem_keys_shiftRemove.mp hother).1,
        hgrounded.events⟩
    exact htaken.publish hlive
  · simp only [bind_ok_iff, pure_ok_iff, expect_eq_ok_iff] at hpublish
    obtain ⟨⟨id, spawned⟩, hspawn, combatant, -, rfl⟩ := hpublish
    obtain ⟨hspawned, hlive⟩ := hgrounded.spawn hspawn
    exact hspawned.publish hlive

theorem firstTurn_controlled {active : Option EntityId}
    (hfirst : firstTurn mode world = .ok (active, next)) :
    Controlled world next ∧ ∀ id, active = some id → id ∈ world.combatants.keys := by
  unfold firstTurn at hfirst
  split at hfirst
  · cases hfirst
    exact ⟨Controlled.refl world, nofun⟩
  · split at hfirst
    · cases hfirst
      exact ⟨Controlled.refl world, nofun⟩
    · next head _ =>
      simp only [bind_eq_ok_iff, expect_eq_ok_iff, Result.ok.injEq, Prod.mk.injEq] at hfirst
      obtain ⟨state, hget, rfl, rfl⟩ := hfirst
      refine ⟨modifyCombatant_controlled world head _, fun id hid ↦ ?_⟩
      rw [← Option.some.inj hid]
      exact IndexMap.mem_keys_iff.mpr ⟨state, hget⟩

theorem startEncounterInModeTracked (hgrounded : Grounded world) {spec : EncounterSpec}
    {facts : StartFacts}
    (hstart : startEncounterInModeTracked world spec mode = .ok (facts, next)) :
    Grounded next ∧ next.tick = world.tick ∧
      ∀ turn, facts.initialTurn = some turn → turn.1 ∈ next.combatants.keys := by
  simp only [Crpg.Sim.startEncounterInModeTracked, bind_ok_iff, pure_ok_iff, Prod.mk.injEq]
    at hstart
  obtain ⟨prepared, -, sources, -, _, -, ⟨rolled, members⟩, hroll, published, hpublish,
    ⟨active, first⟩, hfirst, rfl, rfl⟩ := hstart
  obtain ⟨_, rfl⟩ := rollInitiative_frame hroll
  have hpublished : Grounded published ∧ published.tick = world.tick := by
    refine Result.foldlM_preserves
      (motive := fun state : World ↦ Grounded state ∧ state.tick = world.tick) ?_ ?_ hpublish
    · intro entry _ state after hstate hafter
      exact ⟨hstate.1.publishMember hafter, (publishMember_tick hafter).trans hstate.2⟩
    · exact ⟨hgrounded.congr rfl rfl rfl rfl fun _ ↦ id, rfl⟩
  have htagged : Grounded { published with
      interners := (published.interners.internTag combatRollTag).2 } :=
    hpublished.1.congr rfl rfl rfl rfl fun _ ↦ id
  obtain ⟨hcontrolled, hactive⟩ := firstTurn_controlled hfirst
  refine ⟨(htagged.controlled hcontrolled).congr rfl rfl rfl rfl fun _ ↦ id,
    hcontrolled.tick.trans hpublished.2, fun turn hturn ↦ ?_⟩
  obtain ⟨id, rfl, rfl⟩ := Option.map_eq_some_iff.mp hturn
  change id ∈ first.combatants.keys
  rw [hcontrolled.keys]
  exact hactive id rfl

/-- A release keeps a world grounded: a record goes to the identity that fought. -/
theorem foldl_release (hgrounded : Grounded world) (combat : CombatState)
    {entries : List (EntityId × Combatant)}
    (hlive : ∀ entry ∈ entries, world.entities.contains entry.1 = true) :
    Grounded (entries.foldl (release combat) world) ∧
      (entries.foldl (release combat) world).tick = world.tick := by
  induction entries generalizing world with
  | nil => exact ⟨hgrounded, rfl⟩
  | cons entry rest ih =>
    have hremoved : Grounded { world with
        timeline := world.timeline.remove entry.1
        combatants := world.combatants.shiftRemove entry.1 } :=
      ⟨hgrounded.arena, hgrounded.transforms,
        fun other hother ↦ hgrounded.combatants other (IndexMap.mem_keys_shiftRemove.mp hother).1,
        hgrounded.creatures, hgrounded.events⟩
    have hreleased : Grounded (release combat world entry) ∧
        (release combat world entry).tick = world.tick ∧
        (release combat world entry).entities = world.entities := by
      unfold release
      dsimp only
      split
      · exact ⟨hremoved.insertCreature (hlive entry (List.mem_cons_self ..)), rfl, rfl⟩
      · exact ⟨hremoved, rfl, rfl⟩
    obtain ⟨hone, htick, hentities⟩ := hreleased
    obtain ⟨hall, hticks⟩ := ih hone fun other hother ↦ by
      rw [hentities]
      exact hlive other (List.mem_cons_of_mem _ hother)
    exact ⟨hall, hticks.trans htick⟩

theorem endEncounter (hgrounded : Grounded world) {summary : EncounterSummary}
    (hend : endEncounter world = .ok (summary, next)) : Grounded next ∧ next.tick = world.tick := by
  simp only [Crpg.Sim.endEncounter, bind_ok_iff, pure_ok_iff, Prod.mk.injEq] at hend
  obtain ⟨combat, -, -, rfl⟩ := hend
  obtain ⟨hreleased, htick⟩ := hgrounded.foldl_release combat fun entry hentry ↦
    hgrounded.combatants entry.1 (List.mem_map_of_mem hentry)
  exact ⟨hreleased.congr rfl rfl rfl rfl fun _ ↦ id, htick⟩

end Grounded

end Crpg.Sim
