import Crpg.Sim.NaturalEndRun

/-!
# The atomicity of a transfer

`transfer_history_entity` stages both wrappers, moves the entity on the staged ones and writes them
back last. A transfer that returns moved the entity with its transform and its record from one
wrapper to the other and journaled one event on each side. A transfer that does not return leaves
both wrappers as they were; besides a refusal that is the panic of a destination arena without a
slot left.
-/

set_option autoImplicit false

namespace Crpg.Sim

open Crpg.Core Crpg.Lib
open Result (bind_eq bind_ok_iff isOkAnd_iff ok_bind pure_ok_iff returns_failIf returns_ok
  returns_okOr)

/-- `transfer_history_entity` on the wrappers it borrows: what it returns, and what is in them
then. Nothing is written to them before the staged pair is complete. -/
def transferHistoryEntityInPlace (source destination : HistoryWorld) (entity : EntityId) :
    Result TransferError EntityId × HistoryWorld × HistoryWorld :=
  match transferHistoryEntity source destination entity with
  | .ok (moved, stagedSource, stagedDestination) => (.ok moved, stagedSource, stagedDestination)
  | .err error => (.err error, source, destination)
  | .panic => (.panic, source, destination)

/-! ### The journal of one side -/

structure JournaledOne (before after : HistoryWorld) (event : HistoryEvent) : Prop where
  envelopes : after.pending.envelopes =
    before.pending.envelopes ++ [⟨before.world.tick, before.nextSeq, event⟩]
  nextSeq : after.nextSeq = before.nextSeq + 1
  acknowledged : after.acknowledged = before.acknowledged
  version : after.version = before.version

variable {history next : HistoryWorld}

/-- A drained commit of one event that needs no newer version. Assumes: a staged world at the same
tick that runs in real time only if the old one did. -/
theorem Journaled.journaledOne (hjournaled : Journaled history) {staged : World}
    {collect : List SimEvent → Result HistoryError (List HistoryEvent)} {event : HistoryEvent}
    (hcommit : history.commitDrained staged collect = .ok next)
    (hcollect : collect staged.drainEvents.1 = .ok [event]) (hplain : event.isV2 = false)
    (htick : staged.tick = history.world.tick)
    (hclock : staged.hasClock = true → history.world.hasClock = true) :
    JournaledOne history next event := by
  rw [HistoryWorld.commitDrained, hcollect, ok_bind] at hcommit
  simp only [HistoryWorld.commit, bind_ok_iff, pure_ok_iff] at hcommit
  obtain ⟨_, -, _, -, _, -, final, hfold, rfl⟩ := hcommit
  obtain ⟨henvelopes, -, -⟩ := HistoryWorld.foldlM_stageEvent hfold
  have htick : staged.drainEvents.2.tick = history.world.tick := htick
  rw [List.nil_append, envelopesFrom, envelopesFrom, htick] at henvelopes
  refine ⟨?_, rfl, rfl, ?_⟩
  · rw [Journal.append, henvelopes]
  · apply if_neg
    rintro ⟨hless, hclocked | hv2⟩
    · have hnewest := hjournaled.newest (Or.inl (hclock hclocked))
      exact absurd hnewest hless.ne
    · rw [henvelopes, List.any_cons, List.any_nil, Bool.or_false] at hv2
      exact absurd (hv2.symm.trans hplain) (by decide)

theorem commit_returns (history : HistoryWorld) (world : World) (events : List HistoryEvent)
    (tick : ℕ) : (history.commit world events tick).Returns := by
  have htext (event : HistoryEvent) : (HistoryWorld.checkText event).Returns := by
    cases event with
    | actionResolved _ _ _ outcome _ => exact returns_failIf
    | _ => nofun
  have hstage (staged : HistoryWorld.Staged) (event : HistoryEvent) :
      (HistoryWorld.stageEvent tick staged event).Returns :=
    returns_failIf.bind fun _ _ ↦ returns_failIf.bind fun _ _ ↦ returns_ok _
  unfold HistoryWorld.commit
  apply (Result.returns_forM htext).bind
  intro _ _
  apply returns_failIf.bind
  intro _ _
  apply returns_failIf.bind
  intro _ _
  exact (Result.returns_foldlM hstage).bind fun _ _ ↦ returns_ok _

theorem drainEvents_push {world staged : World} {event : SimEvent}
    (hqueue : world.events.envelopes = [])
    (hevents : staged.events = world.events.push world.tick event) :
    staged.drainEvents.1 = [event] := by
  rw [World.drainEvents, hevents, EventQueue.drain, EventQueue.push, hqueue]
  rfl

/-! ### The side the entity leaves -/

/-- What a transfer did to the wrapper an entity left. -/
structure Departed (before after : HistoryWorld) (entity : EntityId) : Prop where
  live : before.world.contains entity = true
  gone : after.world.contains entity = false
  others : ∀ other, other ≠ entity → after.world.contains other = before.world.contains other
  transforms : after.world.transforms = before.world.transforms.shiftRemove entity
  creatures : after.world.creatures = before.world.creatures.shiftRemove entity
  combatants : after.world.combatants = before.world.combatants
  combat : after.world.combat = before.world.combat ∨
    before.world.combatants.keys = [] ∧ after.world.combat = none
  timeline : after.world.timeline = before.world.timeline
  rng : after.world.rng = before.world.rng
  interners : after.world.interners = before.world.interners
  tick : after.world.tick = before.world.tick
  area : after.world.area = before.world.area
  journal : JournaledOne before after (.despawned entity)

/-- The world after an entity without a place in the encounter left, with one event queued. -/
def departedWorld (world : World) (id : EntityId) (combat : Option CombatState) : World :=
  { strip world (world.entities.remove id).2 id with
    combat := combat
    events := world.events.push world.tick (.despawned id) }

/-- The removal of a live entity that does not fight: it is stripped, and one event is queued. An
encounter without combatants is released with it. -/
theorem despawnTracked_noncombatant {world : World} (hcoherent : Coherent world) {id : EntityId}
    (hlive : world.entities.contains id = true) (habsent : id ∉ world.combatants.keys) :
    ∃ combat, (combat = world.combat ∨ world.combatants.keys = [] ∧ combat = none) ∧
      despawnTracked world id = .ok ((true, TransitionFacts.none), departedWorld world id combat) := by
  have hkept : (strip world (world.entities.remove id).2 id).combatants = world.combatants :=
    IndexMap.shiftRemove_of_notMem habsent
  have hremoved : ∃ value, world.entities.remove id = (some value, (world.entities.remove id).2) := by
    obtain ⟨-, -, hnone⟩ | ⟨-, value, -, -, -, hvalue, -⟩ :=
      GenerationalArena.remove_cases world.entities id
    · rw [GenerationalArena.contains, hnone] at hlive
      cases hlive
    · exact ⟨value, Prod.ext hvalue rfl⟩
  obtain ⟨value, hremoved⟩ := hremoved
  have hsettled : ∃ combat, (combat = world.combat ∨ world.combatants.keys = [] ∧ combat = none) ∧
      settleDespawn (strip world (world.entities.remove id).2 id) world.combat id =
        .ok (TransitionFacts.none,
          { strip world (world.entities.remove id).2 id with combat := combat }) := by
    have hstripped : (strip world (world.entities.remove id).2 id).combatants.isEmpty =
        world.combatants.isEmpty := congrArg IndexMap.isEmpty hkept
    unfold settleDespawn
    by_cases hempty : world.combatants.isEmpty = true
    · have hidle : world.combat.bind CombatState.active = none := by
        refine Option.eq_none_iff_forall_ne_some.mpr fun head hhead ↦ ?_
        refine hcoherent.active_ne (fun hmem ↦ ?_) hhead
        rw [IndexMap.isEmpty_iff.mp hempty] at hmem
        exact absurd hmem List.not_mem_nil
      refine ⟨none, Or.inr ⟨IndexMap.isEmpty_iff.mp hempty, rfl⟩, ?_⟩
      rw [if_pos (hstripped.trans hempty)]
      cases hcombat : world.combat with
      | none => rfl
      | some combat =>
        rw [hcombat] at hidle
        rw [Option.bind_some, show combat.active = none from hidle]
        rfl
    · refine ⟨world.combat, Or.inl rfl, ?_⟩
      rw [if_neg (hstripped ▸ hempty)]
      exact if_neg (hcoherent.active_ne habsent)
  obtain ⟨combat, hcombat, hsettled⟩ := hsettled
  refine ⟨combat, hcombat, ?_⟩
  rw [despawnTracked, hremoved]
  dsimp only
  rw [hsettled, ok_bind]
  have hsame : ({ strip world (world.entities.remove id).2 id with combat := combat } :
      World).rtAlive = world.rtAlive := by
    rw [World.rtAlive, World.aliveInStore, World.rtAlive, World.aliveInStore]
    exact congrArg (fun store : ComponentStore Combatant ↦ ((store.entries.filter fun entry ↦
      !entry.2.dead).map Prod.fst).length) hkept
  cases hfight : world.combat with
  | none =>
    rw [priorRtAlive, hfight]
    rfl
  | some fight =>
    rw [priorRtAlive, hfight, Option.bind_some]
    by_cases hmode : fight.mode = .realTime
    · simp only [if_pos hmode, hsame]
      rw [if_neg fun hboth ↦ absurd hboth.1 (not_le.mpr hboth.2)]
      rfl
    · rw [if_neg hmode]
      rfl

theorem despawn_returns (hcoherent : Coherent history.world) {entity : EntityId}
    (hlive : history.world.contains entity = true)
    (habsent : entity ∉ history.world.combatants.keys) : (history.despawn entity).Returns := by
  obtain ⟨combat, -, htracked⟩ := despawnTracked_noncombatant hcoherent hlive habsent
  unfold HistoryWorld.despawn
  rw [htracked]
  refine (returns_ok _).bind fun _ _ ↦ ?_
  refine Result.Returns.bind ?_ fun _ _ ↦ returns_ok _
  exact (returns_ok _).bind fun _ _ ↦ commit_returns _ _ _ _

/-- What the despawn of a live entity that neither fights nor is scheduled leaves. -/
theorem Journaled.departed (hjournaled : Journaled history) (hcoherent : Coherent history.world)
    {entity : EntityId} (hlive : history.world.contains entity = true)
    (habsent : entity ∉ history.world.combatants.keys)
    (hunscheduled : history.world.timeline.contains entity ≠ true) {removed : Bool × HistoryWorld}
    (hdespawn : history.despawn entity = .ok removed) : Departed history removed.2 entity := by
  obtain ⟨combat, hcombat, htracked⟩ := despawnTracked_noncombatant hcoherent hlive habsent
  have hdrained : (departedWorld history.world entity combat).drainEvents.1 = [.despawned entity] :=
    drainEvents_push hjournaled.queue rfl
  have hclock : (departedWorld history.world entity combat).hasClock = true →
      history.world.hasClock = true := by
    rcases hcombat with rfl | ⟨-, rfl⟩
    · exact id
    · exact nofun
  simp only [HistoryWorld.despawn, htracked, Result.mapErr, bind_eq, ok_bind, Result.bind_eq_ok_iff,
    Result.pure_eq, Result.ok.injEq] at hdespawn
  obtain ⟨after, hcommit, rfl⟩ := hdespawn
  have hjournal := hjournaled.journaledOne hcommit (by rw [hdrained]; rfl) rfl rfl hclock
  have hworld : after.world = (departedWorld history.world entity combat).drainEvents.2 :=
    (hjournaled.commitDrained_appended hcommit).2
  have hlives (other : EntityId) : after.world.contains other = true ↔
      history.world.contains other = true ∧ other ≠ entity := by
    rw [hworld]
    exact GenerationalArena.contains_remove_iff hjournaled.grounded.arena
  refine ⟨hlive, ?_, fun other hne ↦ ?_, hworld ▸ rfl, hworld ▸ rfl, ?_, ?_, ?_, hworld ▸ rfl,
    hworld ▸ rfl, hworld ▸ rfl, hworld ▸ rfl, hjournal⟩
  · rw [← Bool.not_eq_true, hlives]
    exact fun hboth ↦ hboth.2 rfl
  · rw [Bool.eq_iff_iff, hlives]
    exact and_iff_left hne
  · rw [hworld]
    exact IndexMap.shiftRemove_of_notMem habsent
  · rw [hworld]
    exact hcombat
  · rw [hworld]
    exact Timeline.remove_of_not_contains hunscheduled

/-! ### The side the entity enters -/

/-- What a transfer did to the wrapper an entity entered with its components and its record. -/
structure Arrived (before after : HistoryWorld) (moved : EntityId) (data : EntityMeta)
    (transform : Option Transform) (record : Option CreatureState) : Prop where
  fresh : before.world.contains moved = false
  live : after.world.entities.get moved = some data
  others : ∀ other, other ≠ moved → after.world.contains other = before.world.contains other
  transform : after.world.transforms.get? moved = transform
  record : after.world.creatures.get? moved = record
  transforms : ∀ other, other ≠ moved →
    after.world.transforms.get? other = before.world.transforms.get? other
  creatures : ∀ other, other ≠ moved →
    after.world.creatures.get? other = before.world.creatures.get? other
  combatants : after.world.combatants = before.world.combatants
  combat : after.world.combat = before.world.combat
  timeline : after.world.timeline = before.world.timeline
  rng : after.world.rng = before.world.rng
  interners : after.world.interners = before.world.interners
  tick : after.world.tick = before.world.tick
  area : after.world.area = before.world.area
  journal : JournaledOne before after (.spawned moved)

/-- The world after an entity entered it with its record, with one event queued. -/
def arrivedWorld (world : World) (entities : GenerationalArena EntityMeta) (id : EntityId)
    (record : Option CreatureState) : World :=
  { world with
    entities := entities
    events := world.events.push world.tick (.spawned id)
    creatures := insertSome world.creatures id record }

theorem get?_insertSome {T : Type} {store : ComponentStore T} {id : EntityId}
    (hfresh : id ∉ store.keys) (value : Option T) (other : EntityId) :
    (insertSome store id value).get? other = if other = id then value else store.get? other := by
  cases value with
  | none =>
    by_cases hother : other = id
    · rw [if_pos hother, hother]
      exact IndexMap.get?_eq_none_iff.mpr hfresh
    · rw [if_neg hother]
      rfl
  | some value => exact IndexMap.get?_insert

theorem spawnWithCreature_eq_panic {data : EntityMeta} {record : Option CreatureState}
    (hpanic : history.spawnWithCreature data record = .panic) :
    history.world.entities.insert data = none := by
  by_contra hroom
  obtain ⟨minted, hinsert⟩ := Option.ne_none_iff_exists'.mp hroom
  refine absurd hpanic ?_
  unfold HistoryWorld.spawnWithCreature
  rw [World.spawn, hinsert]
  refine (returns_ok _).bind fun _ _ ↦ ?_
  refine Result.Returns.bind ?_ fun _ _ ↦ returns_ok _
  exact (returns_ok _).bind fun _ _ ↦ commit_returns _ _ _ _

theorem Journaled.arrived (hjournaled : Journaled history) {data : EntityMeta}
    {record : Option CreatureState} (transform : Option Transform)
    {spawned : EntityId × HistoryWorld}
    (hspawned : history.spawnWithCreature data record = .ok spawned) :
    Arrived history (spawned.2.attachTransform spawned.1 transform) spawned.1 data transform
      record := by
  have hgrounded := hjournaled.grounded
  simp only [HistoryWorld.spawnWithCreature, World.spawn, bind_ok_iff, pure_ok_iff,
    Result.expect_eq_ok_iff, Option.map_eq_some_iff] at hspawned
  obtain ⟨_, ⟨⟨minted, entities⟩, hinsert, rfl⟩, after, hcommit, rfl⟩ := hspawned
  have hfresh := GenerationalArena.not_contains_of_insert hgrounded.arena hinsert
  have hnone {T : Type} {store : ComponentStore T} (hstore : ∀ id ∈ store.keys,
      history.world.entities.contains id = true) : minted ∉ store.keys := by
    intro hmem
    exact absurd ((hstore minted hmem).symm.trans hfresh) (by decide)
  change history.commitDrained (arrivedWorld history.world entities minted record) _ = _ at hcommit
  have hjournal : JournaledOne history after (.spawned minted) :=
    hjournaled.journaledOne hcommit (by rw [drainEvents_push hjournaled.queue rfl]; rfl) rfl rfl id
  have hworld : after.world = (arrivedWorld history.world entities minted record).drainEvents.2 :=
    (hjournaled.commitDrained_appended hcommit).2
  have hentities : after.world.entities = entities := by rw [hworld]; rfl
  have hrecords (other : EntityId) : after.world.creatures.get? other =
      if other = minted then record else history.world.creatures.get? other := by
    rw [hworld]
    exact get?_insertSome (hnone hgrounded.creatures) record other
  have htransforms (other : EntityId) :
      (insertSome after.world.transforms minted transform).get? other =
        if other = minted then transform else history.world.transforms.get? other := by
    rw [hworld]
    exact get?_insertSome (hnone hgrounded.transforms) transform other
  refine ⟨hfresh, ?_, fun other hne ↦ ?_, ?_, ?_, fun other hne ↦ ?_, fun other hne ↦ ?_,
    (congrArg World.combatants hworld).trans rfl, (congrArg World.combat hworld).trans rfl,
    (congrArg World.timeline hworld).trans rfl, (congrArg World.rng hworld).trans rfl,
    (congrArg World.interners hworld).trans rfl, (congrArg World.tick hworld).trans rfl,
    (congrArg World.area hworld).trans rfl,
    ⟨hjournal.envelopes, hjournal.nextSeq, hjournal.acknowledged, hjournal.version⟩⟩
  · change after.world.entities.get minted = some data
    rw [hentities, GenerationalArena.get, GenerationalArena.getElem?_insert hgrounded.arena hinsert]
    exact if_pos rfl
  · change after.world.entities.contains other = history.world.entities.contains other
    rw [hentities, Bool.eq_iff_iff, GenerationalArena.contains_insert_iff hgrounded.arena hinsert]
    exact or_iff_right hne
  · exact (htransforms minted).trans (if_pos rfl)
  · exact (hrecords minted).trans (if_pos rfl)
  · exact (htransforms other).trans (if_neg hne)
  · exact (hrecords other).trans (if_neg hne)

/-! ### Transfers -/

theorem transferPreflight_returns (source destination : World) (entity : EntityId) :
    (transferPreflight source destination entity).Returns := by
  unfold transferPreflight
  apply returns_okOr.bind
  intro _ _
  apply returns_okOr.bind
  intro _ _
  apply returns_failIf.bind
  intro _ _
  apply returns_failIf.bind
  intro _ _
  apply returns_failIf.bind
  intro _ _
  apply returns_failIf.bind
  intro _ _
  apply returns_failIf.bind
  intro _ _
  split
  · exact returns_failIf
  · exact returns_ok _

/-- An entity that passes the checks is live, does not fight and is not scheduled. -/
theorem transferPreflight_eq_ok {source destination : World} {entity : EntityId}
    (hpreflight : transferPreflight source destination entity = .ok ()) :
    source.contains entity = true ∧ entity ∉ source.combatants.keys ∧
      source.timeline.contains entity ≠ true := by
  simp only [transferPreflight, bind_ok_iff, Result.failIf_eq_ok_iff] at hpreflight
  obtain ⟨_, -, _, -, _, -, _, hlive, _, hfights, _, hscheduled, -⟩ := hpreflight
  exact ⟨Bool.eq_true_of_not_eq_false hlive,
    fun hmem ↦ hfights (IndexMap.contains_eq_true_iff.mpr hmem), hscheduled⟩

/-- The outcomes of a transfer: the entity with all it carries moved and each side journaled one
event, or it was refused, or the destination has no slot left. -/
theorem transferHistoryEntity_cases {source destination : HistoryWorld}
    (hsource : Journaled source) (hcoherent : Coherent source.world)
    (hdestination : Journaled destination) (entity : EntityId) : (∃ moved left entered data,
        transferHistoryEntity source destination entity = .ok (moved, left, entered) ∧
        source.world.entities.get entity = some data ∧ Departed source left entity ∧
        Arrived destination entered moved data (source.world.transforms.get? entity)
          (source.world.creatures.get? entity)) ∨
      (∃ error, transferHistoryEntity source destination entity = .err error) ∨
      transferHistoryEntity source destination entity = .panic ∧
        destination.world.entities.free = ∅ ∧ u32Max ≤ destination.world.entities.slots.length := by
  cases hpreflight : transferPreflight source.world destination.world entity with
  | err error =>
    refine Or.inr (Or.inl ⟨.area error, ?_⟩)
    rw [transferHistoryEntity, hpreflight]
    rfl
  | panic => exact absurd hpreflight (transferPreflight_returns _ _ _)
  | ok _ =>
    obtain ⟨hlive, habsent, hunscheduled⟩ := transferPreflight_eq_ok hpreflight
    obtain ⟨data, hdata⟩ := Option.isSome_iff_exists.mp hlive
    have hcall : transferHistoryEntity source destination entity =
        ((source.despawn entity).mapErr .sourceHistory).bind fun removed ↦
          ((destination.spawnWithCreature data (source.world.creatures.get? entity)).mapErr
            .destinationHistory).bind fun moved ↦ .ok (moved.1, removed.2,
              moved.2.attachTransform moved.1 (source.world.transforms.get? entity)) := by
      rw [transferHistoryEntity, hpreflight, hdata]
      rfl
    rw [hcall]
    cases hremoved : source.despawn entity with
    | err error => exact Or.inr (Or.inl ⟨_, rfl⟩)
    | panic =>
      exact absurd hremoved (despawn_returns hcoherent hlive habsent)
    | ok removed =>
      cases hspawned : destination.spawnWithCreature data (source.world.creatures.get? entity) with
      | err error => exact Or.inr (Or.inl ⟨_, rfl⟩)
      | panic =>
        refine Or.inr (Or.inr ⟨rfl, ?_⟩)
        apply (GenerationalArena.insert_eq_none_iff hdestination.grounded.arena).mp
        exact spawnWithCreature_eq_panic hspawned
      | ok spawned =>
        exact Or.inl ⟨_, _, _, data, rfl, hdata,
          hsource.departed hcoherent hlive habsent hunscheduled hremoved,
          hdestination.arrived _ hspawned⟩

/-- A transfer between two histories moves an entity or changes nothing. Assumes: two reachable
histories. When it returns an identity, the entity was in the source and is in the destination only,
with its data, its transform and its record as they were; each journal has one more event and
everything else is as it was. When it returns an error, or panics, both histories are as they were;
it panics only on a destination arena that has no free slot and every index in use. -/
theorem transfer_moves_or_changes_nothing {source destination : HistoryWorld}
    (hsource : HistoryReachable source) (hdestination : HistoryReachable destination)
    (entity : EntityId) : (∃ moved data left entered,
        transferHistoryEntityInPlace source destination entity = (.ok moved, left, entered) ∧
        source.world.entities.get entity = some data ∧ Departed source left entity ∧
        Arrived destination entered moved data (source.world.transforms.get? entity)
          (source.world.creatures.get? entity)) ∨
      (∃ error, transferHistoryEntityInPlace source destination entity =
        (.err error, source, destination)) ∨
      transferHistoryEntityInPlace source destination entity = (.panic, source, destination) ∧
        destination.world.entities.free = ∅ ∧ u32Max ≤ destination.world.entities.slots.length := by
  unfold transferHistoryEntityInPlace
  obtain ⟨moved, left, entered, data, hcall, hmoved⟩ | ⟨error, hcall⟩ | ⟨hcall, hfull⟩ :=
    transferHistoryEntity_cases (journaled_of_reachable hsource)
      (coherent_of_historyReachable hsource) (journaled_of_reachable hdestination) entity
  · rw [hcall]
    exact Or.inl ⟨moved, data, left, entered, rfl, hmoved⟩
  · rw [hcall]
    exact Or.inr (Or.inl ⟨error, rfl⟩)
  · rw [hcall]
    exact Or.inr (Or.inr ⟨rfl, hfull⟩)

/-- The one entity of an area moves to an empty one. -/
theorem transfer_moves_traveller : ∃ source moved left entered,
    transferHistoryEntityInPlace source (HistoryWorld.newInArea 0 2) ⟨0, 1⟩ =
      (.ok moved, left, entered) ∧ Departed source left ⟨0, 1⟩ := by
  obtain ⟨⟨id, source⟩, hspawn, htransfer⟩ := isOkAnd_iff.mp
    (show ((HistoryWorld.newInArea 0 1).spawn ⟨⟩).isOkAnd (fun spawned ↦
      (transferHistoryEntityInPlace spawned.2 (HistoryWorld.newInArea 0 2)
        ⟨0, 1⟩).1.isOkAnd fun _ ↦ true) = true by decide +kernel)
  obtain ⟨moved, hmoved, -⟩ := isOkAnd_iff.mp htransfer
  obtain ⟨moved, _, left, entered, hcall, -, hleft, -⟩ | ⟨_, hcall⟩ | ⟨hcall, -⟩ :=
    transfer_moves_or_changes_nothing (.spawn (.newInArea 0 1) hspawn) (.newInArea 0 2) ⟨0, 1⟩
  · exact ⟨source, moved, left, entered, hcall, hleft⟩
  · rw [hcall] at hmoved
    cases hmoved
  · rw [hcall] at hmoved
    cases hmoved

/-! ### A full destination -/

theorem utf8ByteSize_ofList_le (chars : List Char) :
    (String.ofList chars).utf8ByteSize ≤ 4 * chars.length := by
  induction chars with
  | nil => simp
  | cons char rest ih =>
    rw [String.ofList_cons, String.utf8ByteSize_append, String.utf8ByteSize_singleton,
      List.length_cons]
    have hchar := char.utf8Size_le_four
    omega

theorem utf8ByteSize_toString_le {number : ℕ} (hsmall : number < 10 ^ 20) :
    (toString number).utf8ByteSize ≤ 80 := by
  have hlength : (Nat.repr number).length ≤ 20 := (Nat.length_repr_le_iff (by decide)).mpr hsmall
  have hsize := utf8ByteSize_ofList_le (Nat.repr number).toList
  rw [String.ofList_toList, String.length_toList] at hsize
  change (Nat.repr number).utf8ByteSize ≤ 80
  omega

theorem envelopeLen_spawned_le {tick seq : ℕ} {id : EntityId} (htick : tick < 10 ^ 20)
    (hseq : seq < 10 ^ 20) (hindex : id.index < 10 ^ 20) (hgeneration : id.generation < 10 ^ 20) :
    envelopeLen ⟨tick, seq, .spawned id⟩ ≤ 500 := by
  have htickSize := utf8ByteSize_toString_le htick
  have hseqSize := utf8ByteSize_toString_le hseq
  have hindexSize := utf8ByteSize_toString_le hindex
  have hgenerationSize := utf8ByteSize_toString_le hgeneration
  have hkeys : ∀ key ∈ ["tick", "seq", "payload", "type", "value", "entity", "index", "generation",
      "spawned"], (Json.quote key).utf8ByteSize ≤ 14 := by decide +kernel
  have hmarks : "\x7b".utf8ByteSize = 1 ∧ "\x7d".utf8ByteSize = 1 ∧ ":".utf8ByteSize = 1 ∧
      ",".utf8ByteSize = 1 := by decide +kernel
  simp only [List.forall_mem_cons] at hkeys
  simp only [envelopeLen, HistoryEnvelope.encode, HistoryEvent.encode, tagged, encodeEntity,
    Json.size, Json.render, Json.renderFields, String.utf8ByteSize_append]
  omega

structure Filled (count : ℕ) (history : HistoryWorld) : Prop where
  reachable : HistoryReachable history
  slots : history.world.entities.slots.length = count
  free : history.world.entities.free = ∅
  area : history.world.area = some 2
  creatures : history.world.creatures = .empty
  combatants : history.world.combatants = .empty
  tick : history.world.tick = 0
  pending : history.pending = Journal.new
  acknowledged : history.acknowledged = count
  nextSeq : history.nextSeq = count + 1

theorem commit_one {world : World} {event : HistoryEvent} {tick : ℕ}
    (htext : HistoryWorld.checkText event = .ok ()) (hrange : history.nextSeq + 1 ≤ u64Max)
    (hcount : history.pending.len + 1 ≤ maxHistoryEvents)
    (hbytes : history.pending.bytes + envelopeLen ⟨tick, history.nextSeq, event⟩ ≤ maxHistoryBytes) :
    history.commit world [event] tick = .ok
      { version := HistoryWorld.upgraded history.version world [⟨tick, history.nextSeq, event⟩]
        world := world
        acknowledged := history.acknowledged
        nextSeq := history.nextSeq + 1
        pending := history.pending.append [⟨tick, history.nextSeq, event⟩]
          (history.pending.bytes + envelopeLen ⟨tick, history.nextSeq, event⟩) } := by
  simp only [HistoryWorld.commit, Result.forM, htext, bind_eq, ok_bind,
    List.length_singleton, Result.failIf, if_neg (not_lt.mpr hrange), if_neg (not_lt.mpr hcount),
    Result.foldlM, HistoryWorld.stageEvent, if_neg (not_lt.mpr hbytes)]
  rfl

/-- One more entity in an acknowledged history. -/
theorem Filled.grow {count : ℕ} (hfilled : Filled count history) (hroom : count < u32Max) :
    ∃ next, Filled (count + 1) next := by
  have hbound : u32Max = 4294967295 := rfl
  have hwide : u64Max = 18446744073709551615 := rfl
  have hinsert : history.world.entities.insert ⟨⟩ = some (⟨count, firstGeneration⟩,
      ⟨history.world.entities.slots ++ [⟨firstGeneration, some ⟨⟩⟩], history.world.entities.free,
        history.world.entities.len + 1⟩) := by
    have hpop : GenerationalArena.popFirst history.world.entities.free = none := by
      rw [hfilled.free]
      rfl
    rw [GenerationalArena.insert, hpop, ← hfilled.slots]
    exact if_pos (hfilled.slots ▸ hroom)
  have hsmall : envelopeLen ⟨history.world.tick, history.nextSeq,
      .spawned ⟨count, firstGeneration⟩⟩ ≤ 500 := by
    apply envelopeLen_spawned_le
    · rw [hfilled.tick]
      decide
    · rw [hfilled.nextSeq]
      omega
    · show count < 10 ^ 20
      omega
    · show firstGeneration < 10 ^ 20
      decide
  have hqueue := (journaled_of_reachable hfilled.reachable).queue
  let arena : GenerationalArena EntityMeta := ⟨history.world.entities.slots ++
    [⟨firstGeneration, some ⟨⟩⟩], history.world.entities.free, history.world.entities.len + 1⟩
  let staged := (arrivedWorld history.world arena ⟨count, firstGeneration⟩ none).drainEvents.2
  let event : HistoryEvent := .spawned ⟨count, firstGeneration⟩
  let envelope : HistoryEnvelope := ⟨history.world.tick, history.nextSeq, event⟩
  let spawned : HistoryWorld := ⟨HistoryWorld.upgraded history.version staged [envelope], staged,
    history.acknowledged, history.nextSeq + 1,
    history.pending.append [envelope] (history.pending.bytes + envelopeLen envelope)⟩
  have hcommit : history.commit staged [event] history.world.tick = .ok spawned := by
    apply commit_one rfl
    · rw [hfilled.nextSeq]
      omega
    · rw [hfilled.pending]
      decide
    · rw [hfilled.pending]
      have hlimit : maxHistoryBytes = 1048576 := rfl
      have hnone : Journal.new.bytes = 0 := rfl
      rw [hnone, hlimit, Nat.zero_add]
      exact hsmall.trans (by decide)
  have hspawn : history.spawn ⟨⟩ = .ok (⟨count, firstGeneration⟩, spawned) := by
    have hdrained : (arrivedWorld history.world arena ⟨count, firstGeneration⟩ none).drainEvents.1 =
        [.spawned ⟨count, firstGeneration⟩] := drainEvents_push hqueue rfl
    have hstaged : history.commitDrained (arrivedWorld history.world arena
        ⟨count, firstGeneration⟩ none) HistoryWorld.translated = .ok spawned := by
      rw [HistoryWorld.commitDrained, hdrained]
      exact hcommit
    rw [HistoryWorld.spawn, HistoryWorld.spawnWithCreature, World.spawn, hinsert]
    exact congrArg (fun result : Result HistoryError HistoryWorld ↦
      result.bind fun next ↦ .ok ((⟨count, firstGeneration⟩ : EntityId), next)) hstaged
  have hacknowledge : spawned.acknowledge (count + 1) = .ok { spawned with
      acknowledged := count + 1
      pending := Journal.new } := by
    have hlast : spawned.lastSequence = count + 1 := by
      show history.nextSeq + 1 - 1 = count + 1
      rw [hfilled.nextSeq, Nat.add_sub_cancel]
    have hbefore : spawned.acknowledged = count := hfilled.acknowledged
    have hdrain : spawned.pending.drainPrefix 1 = Journal.new := by
      show (history.pending.append [envelope] _).drainPrefix 1 = Journal.new
      rw [hfilled.pending]
      exact if_pos rfl
    rw [HistoryWorld.acknowledge, hlast, hbefore, if_neg (lt_irrefl _),
      if_neg (Nat.not_succ_le_self count), Nat.add_sub_cancel_left, hdrain]
  refine ⟨_, .acknowledge (.spawn hfilled.reachable hspawn) hacknowledge, ?_, hfilled.free,
    hfilled.area, hfilled.creatures, hfilled.combatants, hfilled.tick, rfl, rfl, ?_⟩
  · show (history.world.entities.slots ++ [_]).length = count + 1
    rw [List.length_append, hfilled.slots, List.length_singleton]
  · show history.nextSeq + 1 = count + 1 + 1
    rw [hfilled.nextSeq]

theorem exists_filled {count : ℕ} (hbound : count ≤ u32Max) : ∃ history, Filled count history := by
  induction count with
  | zero =>
    exact ⟨HistoryWorld.newInArea 0 2, .newInArea 0 2, rfl, rfl, rfl, rfl, rfl, rfl, rfl, rfl, rfl⟩
  | succ count ih =>
    obtain ⟨history, hfilled⟩ := ih (Nat.le_of_succ_le hbound)
    exact hfilled.grow hbound

/-- A transfer can fail without an error: into a history whose arena has every index in use, the
one entity of an area neither moves nor is refused. -/
theorem transfer_into_full_arena_panics : ¬∀ source destination : HistoryWorld,
    HistoryReachable source → HistoryReachable destination → ∀ entity,
      (∃ moved left entered, transferHistoryEntityInPlace source destination entity =
        (.ok moved, left, entered)) ∨
      ∃ error, transferHistoryEntityInPlace source destination entity =
        (.err error, source, destination) := by
  intro hall
  obtain ⟨destination, hfilled⟩ := exists_filled (le_refl u32Max)
  obtain ⟨⟨id, source⟩, hspawn, hsource⟩ := isOkAnd_iff.mp
    (show ((HistoryWorld.newInArea 0 1).spawn ⟨⟩).isOkAnd (fun spawned ↦
      decide (spawned.2.world.area = some 1) &&
        decide (spawned.2.world.entities.get ⟨0, 1⟩ = some ⟨⟩) &&
        decide (spawned.2.world.creatures.get? ⟨0, 1⟩ = none) &&
        !spawned.2.world.combatants.contains ⟨0, 1⟩ && !spawned.2.world.timeline.contains ⟨0, 1⟩ &&
        decide (spawned.2.world.transforms.get? ⟨0, 1⟩ = none) &&
        (spawned.2.despawn ⟨0, 1⟩).isOkAnd fun _ ↦ true) = true by decide +kernel)
  simp only [Bool.and_eq_true, decide_eq_true_eq, Bool.not_eq_true'] at hsource
  obtain ⟨⟨⟨⟨⟨⟨harea, hdata⟩, hrecord⟩, hfights⟩, hscheduled⟩, hplaced⟩, hleaves⟩ := hsource
  obtain ⟨removed, hremoved, -⟩ := isOkAnd_iff.mp hleaves
  have hlive : source.world.contains ⟨0, 1⟩ = true := by
    rw [World.contains, GenerationalArena.contains, hdata]
    rfl
  have hpreflight : transferPreflight source.world destination.world ⟨0, 1⟩ = .ok () := by
    rw [transferPreflight, harea, hfilled.area, hlive, hfights, hscheduled, hplaced, hrecord]
    rfl
  have hfull : destination.world.entities.insert ⟨⟩ = none :=
    (GenerationalArena.insert_eq_none_iff (journaled_of_reachable hfilled.reachable).grounded.arena).mpr
      ⟨hfilled.free, hfilled.slots.ge⟩
  have hpanic : transferHistoryEntity source destination ⟨0, 1⟩ = .panic := by
    have hrefused : destination.spawnWithCreature ⟨⟩ (source.world.creatures.get? ⟨0, 1⟩) =
        .panic := by
      rw [HistoryWorld.spawnWithCreature, World.spawn, hfull]
      rfl
    rw [transferHistoryEntity, hpreflight, hdata, hremoved]
    simp only [Result.mapErr, bind_eq, ok_bind, Result.expect_some, hrefused, Result.panic_bind]
  have hstuck : transferHistoryEntityInPlace source destination ⟨0, 1⟩ =
      (.panic, source, destination) := by
    rw [transferHistoryEntityInPlace, hpanic]
  rcases hall source destination (.spawn (.newInArea 0 1) hspawn) hfilled.reachable ⟨0, 1⟩ with
    ⟨_, _, _, hcall⟩ | ⟨_, hcall⟩
  · rw [hstuck] at hcall
    cases hcall
  · rw [hstuck] at hcall
    cases hcall

end Crpg.Sim
