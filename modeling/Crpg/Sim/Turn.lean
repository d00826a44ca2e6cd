import Crpg.Sim.Action

/-!
# Turns, rounds and the clock

The controller of `crpg-sim/src/combat.rs` with `tick.rs` and the despawn of `world.rs`: turn
advance and round rollover, the switch between turn-based and real-time play, the two stages of a
tick, the accepted actions, and the release of an encounter. Every mutator returns the world with
the facts its branches observed.

Passes over all combatants touch each combatant on its own, so they are maps over the store; the
order of the source's loops is not observable.
-/

set_option autoImplicit false

namespace Crpg.Sim

open Crpg.Core Crpg.Lib Crpg.Rules Crpg.Data

/-! ### Refreshes -/

def World.mapAlive (world : World) (transform : Combatant → Combatant) : World :=
  { world with combatants :=
      world.combatants.mapValues fun _ state ↦ if state.dead then state else transform state }

/-- Drops the lapsed attachments of every combatant. -/
def World.expireAll (world : World) (round : ℕ) : World :=
  { world with combatants := world.combatants.mapValues fun _ state ↦ state.expire round }

/-- One clock advance delivered to one pool: a tick refresh when a multiple of the period was
crossed, carrying the last one. -/
def deliverPool (old new : ℕ) (pool : ResourcePool) : ResourcePool :=
  match pool.refreshTrigger with
  | .onTick period =>
    if period ≠ 0 ∧ old / period < new / period then pool.refresh (.tick (new - new % period))
    else pool
  | _ => pool

def deliverClockAdvance (world : World) (old new : ℕ) : World :=
  world.mapAlive fun combatant ↦
    { combatant with
      actionPool := deliverPool old new combatant.actionPool
      extraPools := combatant.extraPools.map (deliverPool old new) }

def schedule (timeline : Timeline) (entries : List (ℤ × EntityId)) : Timeline :=
  entries.foldl (fun timeline entry ↦ timeline.insert entry.1 entry.2) timeline

/-! ### Rounds -/

/-- `tb_round_start`: the next round in turn-based play, with its head. -/
def tbRoundStart (world : World) : Result CombatError ((EntityId × ℕ) × World) := do
  let combat ← Result.expect world.combat
  let round := saturatingAdd u32Max combat.round 1
  let expired := (world.mapAlive fun state ↦ state.refresh .roundStart).expireAll round
  let timeline := schedule expired.timeline
    ((expired.combatants.entries.filter fun entry ↦ !entry.2.dead).map fun entry ↦
      (entry.2.initiative, entry.1))
  let head ← Result.expect timeline.head?
  let _ ← Result.expect (expired.combatants.get? head)
  let refreshed := expired.modifyCombatant head fun state ↦ state.refresh .turnStart
  pure ((head, round), { refreshed with
    timeline := timeline
    combat := some { combat with active := some head, round := round } })

/-- `rt_round_start`: the next round in real-time play. -/
def rtRoundStart (world : World) : Result CombatError (ℕ × World) := do
  let combat ← Result.expect world.combat
  let round := saturatingAdd u32Max combat.round 1
  let refreshed := world.mapAlive fun state ↦ (state.refresh .roundStart).refresh .turnStart
  pure (round, { refreshed.expireAll round with combat := some { combat with round := round } })

/-- `switch_to_real_time`: keys every alive combatant at the clock and starts a real-time round. -/
def switchToRealTime (world : World) : Result CombatError (ℕ × World) := do
  let combat ← Result.expect world.combat
  let clock ← Result.expect combat.clock
  Result.panicIf ((clock.elapsed : ℤ) > i32Max)
  rtRoundStart { world with
    timeline := schedule world.timeline (world.aliveIds.map fun id ↦ ((clock.elapsed : ℤ), id))
    combat := some { combat with mode := .realTime, active := none } }

/-- `switch_to_turn_based`: clears every order and starts a turn-based round. -/
def switchToTurnBased (world : World) : Result CombatError ((EntityId × ℕ) × World) := do
  let combat ← Result.expect world.combat
  tbRoundStart { world with
    combatants := world.combatants.mapValues fun _ state ↦ { state with order := none }
    combat := some { combat with mode := .turnBased } }

/-! ### Turn advance -/

/-- The terminal branch: nobody is active, and the end is reported. -/
def terminate (world : World) : Result CombatError (TransitionFacts × World) :=
  (Result.expect world.combat).bind fun combat ↦
    .ok ({ TransitionFacts.none with
        encounterEnded := some (combat.definition.encounter, combat.round) },
      { world with combat := some { combat with active := none } })

/-- The rollover branch: the clock advances by one round, and a pending switch applies. -/
def rollover (world : World) : Result CombatError (TransitionFacts × World) := do
  let combat ← Result.expect world.combat
  match combat.clock with
  | some clock =>
    let new := min rtClockMax (saturatingAdd u64Max clock.elapsed clock.roundTicks)
    let advanced := deliverClockAdvance { world with
      combat := some { combat with
        clock := some { clock with elapsed := new }
        pendingMode := none } } clock.elapsed new
    if combat.pendingMode = some .realTime then do
      let started ← switchToRealTime advanced
      pure ({ TransitionFacts.none with
        modeChanged := some (.realTime, started.1)
        roundStarted := some started.1 }, started.2)
    else do
      let started ← tbRoundStart advanced
      pure ({ TransitionFacts.none with turnStarted := some started.1 }, started.2)
  | none => do
    let started ← tbRoundStart world
    pure ({ TransitionFacts.none with turnStarted := some started.1 }, started.2)

/-- The branch that hands the turn to the next head. -/
def nextTurn (world : World) : Result CombatError (TransitionFacts × World) := do
  let head ← Result.expect world.timeline.head?
  let _ ← Result.expect (world.combatants.get? head)
  let combat ← Result.expect world.combat
  let refreshed := world.modifyCombatant head fun state ↦ state.refresh .turnStart
  pure ({ TransitionFacts.none with turnStarted := some (head, combat.round) },
    { refreshed with combat := some { combat with active := some head } })

/-- `advance_tracked`: settles the turn after the scheduled head left the timeline. -/
def advanceTracked (world : World) : Result CombatError (TransitionFacts × World) :=
  if world.rtAlive ≥ 2 then
    if world.timeline.isEmpty then rollover world else nextTurn world
  else terminate world

/-- `end_turn`: pops the head of the timeline. -/
def endTurn (world : World) : World :=
  match world.timeline.head? with
  | some head => { world with timeline := world.timeline.remove head }
  | none => world

def unscheduleDead (world : World) : World :=
  { world with timeline := world.deadIds.foldl Timeline.remove world.timeline }

/-! ### Actions -/

/-- A turn-based use after its resolution: the dead leave the timeline, and the turn ends, stays or
moves on. -/
def settleUse (world : World) (actor : EntityId) (ability : Ulid) :
    Result CombatError (TransitionFacts × World) := do
  let combat ← Result.expect world.combat
  let entry ← Result.expect (abilityEntry combat.definition ability)
  let cleared := unscheduleDead world
  if cleared.rtAlive < 2 then
    let popped := if cleared.timeline.contains actor then endTurn cleared else cleared
    pure ({ TransitionFacts.none with
        encounterEnded := some (combat.definition.encounter, combat.round) },
      { popped with combat := some { combat with active := none } })
  else if cleared.timeline.contains actor = false then advanceTracked cleared
  else if entry.endsTurn then advanceTracked (endTurn cleared)
  else pure (TransitionFacts.none,
    { cleared with combat := some { combat with active := some actor } })

/-- `perform_action_tracked`: applies one validated action. -/
def performActionTracked (world : World) (action : CombatAction) :
    Result CombatError ((Option ActionOutcome × TransitionFacts) × World) := do
  validateAction world action
  match action with
  | .stop actor =>
    let _ ← Result.expect (world.combatants.get? actor)
    pure ((none, TransitionFacts.none),
      world.modifyCombatant actor fun state ↦ { state with order := none })
  | .endTurn _ =>
    let advanced ← advanceTracked (endTurn (unscheduleDead world))
    pure ((none, advanced.1), advanced.2)
  | .useAbility actor ability target =>
    let combat ← Result.expect world.combat
    match combat.mode with
    | .realTime =>
      let entry ← Result.expect (abilityEntry combat.definition ability)
      let _ ← Result.expect (world.combatants.get? actor)
      pure ((none, TransitionFacts.none), world.modifyCombatant actor fun state ↦
        { state with order := some ⟨ability, target, entry.repeatsInRealTime⟩ })
    | .turnBased =>
      let resolved ← resolveUse world actor ability target
      let settled ← settleUse resolved.2 actor ability
      pure ((some resolved.1, settled.1), settled.2)

/-- `request_mode`: sets, replaces or clears the pending mode. -/
def requestMode (world : World) (mode : EncounterMode) : Result CombatError World := do
  let combat ← Result.okOr .noEncounter world.combat
  Result.failIf (mode = .realTime ∧ combat.clock = none) .modeUnsupported
  pure { world with combat := some { combat with
    pendingMode := if mode = combat.mode then none else some mode } }

/-! ### The tick -/

/-- `rt_running`: a real-time encounter with two alive and a clock below its bound. -/
def rtRunning (world : World) : Bool :=
  match world.combat with
  | none => false
  | some combat => combat.mode = .realTime &&
      (combat.clock.any fun clock ↦ clock.elapsed < rtClockMax) && decide (world.rtAlive ≥ 2)

/-- The boundary of a real-time round: a pending switch, or the next round. -/
def roundBoundary (world : World) : Result CombatError (TransitionFacts × World) := do
  let combat ← Result.expect world.combat
  let taken := { world with combat := some { combat with pendingMode := none } }
  if combat.pendingMode = some .turnBased then do
    let started ← switchToTurnBased taken
    pure ({ TransitionFacts.none with
      modeChanged := some (.turnBased, started.1.2)
      turnStarted := some started.1 }, started.2)
  else do
    let started ← rtRoundStart taken
    pure ({ TransitionFacts.none with roundStarted := some started.1 }, started.2)

/-- `clock_stage`: advances the clock of a running real-time encounter. -/
def clockStage (world : World) : Result CombatError (TransitionFacts × World) :=
  if rtRunning world then do
    let combat ← Result.expect world.combat
    let clock ← Result.expect combat.clock
    let new := clock.elapsed + 1
    let ticked := { world with
      combat := some { combat with clock := some { clock with elapsed := new } } }
    if new = rtClockMax then pure (TransitionFacts.none, ticked)
    else do
      let delivered := deliverClockAdvance ticked clock.elapsed new
      -- The remainder of a zero period.
      Result.panicIf (clock.roundTicks = 0)
      if new % clock.roundTicks ≠ 0 then pure (TransitionFacts.none, delivered)
      else roundBoundary delivered
  else .ok (TransitionFacts.none, world)

/-- Clears the orders of the dead and drops them from the timeline. -/
def buryDead (world : World) : World :=
  { world with
    timeline := world.deadIds.foldl Timeline.remove world.timeline
    combatants := world.combatants.mapValues fun _ state ↦
      if state.dead then { state with order := none } else state }

/-- An actor after its order ran: re-keyed after its recovery when it survived, and a one-shot order
clears. -/
def rekeyActor (world : World) (actor : EntityId) (order : StandingOrder) (key : ℕ) :
    Result CombatError World :=
  if (world.combatants.get? actor).any fun state ↦ !state.dead then
    (Result.panicIf ((key : ℤ) > i32Max)).bind fun _ ↦
      let keyed := { world with timeline := world.timeline.insert key actor }
      .ok (if order.repeats then keyed
        else keyed.modifyCombatant actor fun state ↦ { state with order := none })
  else .ok world

/-- One due order: cleared when it fails validation, executed otherwise. -/
def executeOrder (elapsed roundTicks : ℕ) (world : World) (actor : EntityId)
    (order : StandingOrder) : Result CombatError (TickEvent × World) :=
  match validateAction world (.useAbility actor order.ability order.target) with
  | .panic => .panic
  | .err _ => .ok (.orderEnded actor,
      world.modifyCombatant actor fun state ↦ { state with order := none })
  | .ok () => do
    let combat ← Result.expect world.combat
    let entry ← Result.expect (abilityEntry combat.definition order.ability)
    let recovery := entry.recoveryTicks.getD roundTicks
    let resolved ← resolveUse world actor order.ability order.target
    let key := min (saturatingAdd u64Max elapsed recovery) rtClockMax
    let rekeyed ← rekeyActor (buryDead resolved.2) actor order key
    pure (.resolved resolved.1, rekeyed)

/-- One due entry of the execution pass. The pass ends when fewer than two are alive; an entry that
is gone, dead or without an order is passed over. -/
def executeDue (elapsed roundTicks : ℕ) (state : List TickEvent × World) (actor : EntityId) :
    Result CombatError (List TickEvent × World) :=
  if state.2.rtAlive < 2 then .ok state
  else match state.2.combatants.get? actor with
    | none => .ok state
    | some combatant =>
      if combatant.dead ∨ state.2.timeline.contains actor = false then .ok state
      else match combatant.order with
        | none => .ok state
        | some order => (executeOrder elapsed roundTicks state.2 actor order).bind fun executed ↦
            .ok (state.1 ++ [executed.1], executed.2)

def dueEntities (world : World) (elapsed : ℕ) : List EntityId :=
  (world.timeline.iter.filter fun slot ↦ slot.key ≤ (elapsed : ℤ)).map TurnKey.entity

/-- `execution_stage`: executes the due orders of a running real-time encounter. -/
def executionStage (world : World) (facts : TransitionFacts) :
    Result CombatError (TickFacts × World) :=
  if rtRunning world then do
    let combat ← Result.expect world.combat
    let clock ← Result.expect combat.clock
    let executed ← Result.foldlM (executeDue clock.elapsed clock.roundTicks) ([], world)
      (dueEntities world clock.elapsed)
    if executed.2.rtAlive < 2 then do
      let after ← Result.expect executed.2.combat
      pure (⟨{ facts with encounterEnded := some (after.definition.encounter, after.round) },
        executed.1⟩, executed.2)
    else pure (⟨facts, executed.1⟩, executed.2)
  else .ok (⟨facts, []⟩, world)

/-- `tick_tracked`: one fixed simulation step. -/
def tickTracked (world : World) : Result CombatError (TickFacts × World) :=
  (clockStage world.advanceTick).bind fun staged ↦ executionStage staged.2 staged.1

/-! ### Leaving -/

/-- The alive count of a real-time encounter before a removal. -/
def priorRtAlive (world : World) : Option ℕ :=
  world.combat.bind fun combat ↦ if combat.mode = .realTime then some world.rtAlive else none

/-- The world without an entity's components and its timeline entry. -/
def strip (world : World) (entities : GenerationalArena EntityMeta) (id : EntityId) : World :=
  { world with
    entities := entities
    transforms := world.transforms.shiftRemove id
    creatures := world.creatures.shiftRemove id
    combatants := world.combatants.shiftRemove id
    timeline := world.timeline.remove id }

/-- The encounter after an entity left: released without combatants, advanced when the entity held
the turn, and untouched otherwise. -/
def settleDespawn (stripped : World) (prior : Option CombatState) (id : EntityId) :
    Result CombatError (TransitionFacts × World) :=
  if stripped.combatants.isEmpty then
    .ok ({ TransitionFacts.none with
        encounterEnded := prior.bind fun combat ↦
          combat.active.map fun _ ↦ (combat.definition.encounter, combat.round) },
      { stripped with combat := none })
  else if (stripped.combat.bind CombatState.active) = some id then advanceTracked stripped
  else .ok (TransitionFacts.none, stripped)

/-- `despawn_tracked`: removes an entity with its components and settles the encounter. -/
def despawnTracked (world : World) (id : EntityId) :
    Result CombatError ((Bool × TransitionFacts) × World) :=
  match world.entities.remove id with
  | (none, _) => .ok ((false, TransitionFacts.none), world)
  | (some _, entities) =>
    (settleDespawn (strip world entities id) world.combat id).bind fun settled ↦
      let facts := match priorRtAlive world, world.combat with
        | some before, some combat =>
          if before ≥ 2 ∧ settled.2.rtAlive < 2 then
            { settled.1 with
              encounterEnded := some (combat.definition.encounter, combat.round) }
          else settled.1
        | _, _ => settled.1
      .ok ((true, facts), { settled.2 with
        events := settled.2.events.push settled.2.tick (.despawned id) })

/-- `exit_record`: the record one exiting combatant becomes, when one is due. -/
def exitRecord (combatant : Combatant) (ruleset : Ulid) (round : ℕ) (lifecycle : Lifecycle)
    (release : Bool) : Option CreatureState :=
  if combatant.entered || !lifecycle.respawns then
    let keepsEffects := match lifecycle.effectsOnExit with
      | .suspend => true
      | .strip => false
      | .stripAtRelease => !release
    some
      { placement := combatant.placement
        ruleset := ruleset
        attributes := combatant.attributes
        fixed := combatant.fixed
        health := combatant.health
        maxHealth := combatant.maxHealth
        pools := combatant.actionPool :: combatant.extraPools
        suspended := if keepsEffects then
            (combatant.attached.filter fun item ↦ round < item.expiresRound).map fun item ↦
              ⟨item.effect, item.expiresRound - round⟩
          else []
        tags := sortDedup combatant.tags }
  else none

def release (combat : CombatState) (world : World) (entry : EntityId × Combatant) : World :=
  let removed := { world with
    timeline := world.timeline.remove entry.1
    combatants := world.combatants.shiftRemove entry.1 }
  match exitRecord entry.2 combat.definition.ruleset combat.round combat.lifecycle true with
  | some record => { removed with creatures := removed.creatures.insert entry.1 record }
  | none => removed

def summaryOf (world : World) (combat : CombatState) : EncounterSummary where
  encounter := combat.definition.encounter
  ruleset := combat.definition.ruleset
  round := combat.round
  results := world.combatants.entries.map fun entry ↦
    ⟨entry.2.placement, entry.1, entry.2.health, entry.2.dead⟩

/-- `end_encounter`: releases the active encounter. -/
def endEncounter (world : World) : Result CombatError (EncounterSummary × World) := do
  let combat ← Result.okOr .noEncounter world.combat
  pure (summaryOf world combat,
    { world.combatants.entries.foldl (release combat) world with combat := none })

end Crpg.Sim
