import Crpg.Sim.ScheduleInvariant

/-!
# Deliveries of refresh events

The controller delivers refresh events at several places of one operation: a round start, a turn
start, an advance of the clock. A pool with a refill amount gains it at every delivery, so the
source asks the host to deliver each event once. Here the controller of `Turn` is written once more
with a log of what it delivers, where every pass and its entry come from one primitive
(`Delivery.emit`); `erased` gives back the controller of the source, so the log is that of its own
calls.
-/

set_option autoImplicit false

namespace Crpg.Sim

open Crpg.Core Crpg.Lib Crpg.Rules Crpg.Data
open Result (bind_eq ok_bind pure_eq)

/-! ### Deliveries -/

/-- One pass that delivers refresh events: a round start or a turn start to everybody alive, a turn
start to one combatant, an advance of the clock to everybody alive. -/
inductive Delivery
  | roundStart
  | turnStartAll
  | turnStart (id : EntityId)
  | advance (old new : ℕ)
deriving DecidableEq

/-- The pass itself. -/
def Delivery.deliver : Delivery → World → World
  | .roundStart, world => world.mapAlive fun state ↦ state.refresh .roundStart
  | .turnStartAll, world => world.mapAlive fun state ↦ state.refresh .turnStart
  | .turnStart id, world => world.modifyCombatant id fun state ↦ state.refresh .turnStart
  | .advance old new, world => deliverClockAdvance world old new

/-- Delivers, and records it: every entry of a log comes from here. -/
def Delivery.emit (delivery : Delivery) (world : World) : List Delivery × World :=
  ([delivery], delivery.deliver world)

@[simp]
theorem Delivery.emit_log (delivery : Delivery) (world : World) :
    (delivery.emit world).1 = [delivery] := rfl

/-- A call without its log. -/
def erased {α : Type} (call : Result CombatError (List Delivery × α)) : Result CombatError α :=
  call.bind fun out ↦ .ok out.2

/-- The log of a call that returned. -/
def logOf {α : Type} : Result CombatError (List Delivery × α) → List Delivery
  | .ok out => out.1
  | _ => []

theorem eq_ok_of_erased {α : Type} {call : Result CombatError (List Delivery × α)} {value : α}
    (herased : erased call = .ok value) : call = .ok (logOf call, value) := by
  obtain ⟨⟨deliveries, found⟩, rfl, hvalue⟩ := Result.bind_eq_ok_iff.mp herased
  cases hvalue
  rfl

/-! ### The controller with its log -/

/-- `tb_round_start`. -/
def tbRoundStartLogged (world : World) :
    Result CombatError (List Delivery × (EntityId × ℕ) × World) := do
  let combat ← Result.expect world.combat
  let round := saturatingAdd u32Max combat.round 1
  let begun := Delivery.roundStart.emit world
  let expired := begun.2.expireAll round
  let timeline := schedule expired.timeline
    ((expired.combatants.entries.filter fun entry ↦ !entry.2.dead).map fun entry ↦
      (entry.2.initiative, entry.1))
  let head ← Result.expect timeline.head?
  let _ ← Result.expect (expired.combatants.get? head)
  let turn := (Delivery.turnStart head).emit expired
  pure (begun.1 ++ turn.1, (head, round), { turn.2 with
    timeline := timeline
    combat := some { combat with active := some head, round := round } })

/-- `rt_round_start`. -/
def rtRoundStartLogged (world : World) : Result CombatError (List Delivery × ℕ × World) := do
  let combat ← Result.expect world.combat
  let round := saturatingAdd u32Max combat.round 1
  let begun := Delivery.roundStart.emit world
  let turns := Delivery.turnStartAll.emit begun.2
  pure (begun.1 ++ turns.1, round,
    { turns.2.expireAll round with combat := some { combat with round := round } })

/-- `switch_to_real_time`. -/
def switchToRealTimeLogged (world : World) : Result CombatError (List Delivery × ℕ × World) := do
  let combat ← Result.expect world.combat
  let clock ← Result.expect combat.clock
  Result.panicIf ((clock.elapsed : ℤ) > i32Max)
  rtRoundStartLogged { world with
    timeline := schedule world.timeline (world.aliveIds.map fun id ↦ ((clock.elapsed : ℤ), id))
    combat := some { combat with mode := .realTime, active := none } }

/-- `switch_to_turn_based`. -/
def switchToTurnBasedLogged (world : World) :
    Result CombatError (List Delivery × (EntityId × ℕ) × World) := do
  let combat ← Result.expect world.combat
  tbRoundStartLogged { world with
    combatants := world.combatants.mapValues fun _ state ↦ { state with order := none }
    combat := some { combat with mode := .turnBased } }

/-- The rollover branch of `advance_tracked`. -/
def rolloverLogged (world : World) :
    Result CombatError (List Delivery × TransitionFacts × World) := do
  let combat ← Result.expect world.combat
  match combat.clock with
  | some clock =>
    let new := min rtClockMax (saturatingAdd u64Max clock.elapsed clock.roundTicks)
    let advanced := (Delivery.advance clock.elapsed new).emit { world with
      combat := some { combat with
        clock := some { clock with elapsed := new }
        pendingMode := none } }
    if combat.pendingMode = some .realTime then do
      let started ← switchToRealTimeLogged advanced.2
      pure (advanced.1 ++ started.1, { TransitionFacts.none with
        modeChanged := some (.realTime, started.2.1)
        roundStarted := some started.2.1 }, started.2.2)
    else do
      let started ← tbRoundStartLogged advanced.2
      pure (advanced.1 ++ started.1,
        { TransitionFacts.none with turnStarted := some started.2.1 }, started.2.2)
  | none => do
    let started ← tbRoundStartLogged world
    pure (started.1, { TransitionFacts.none with turnStarted := some started.2.1 }, started.2.2)

/-- The next-turn branch of `advance_tracked`. -/
def nextTurnLogged (world : World) :
    Result CombatError (List Delivery × TransitionFacts × World) := do
  let head ← Result.expect world.timeline.head?
  let _ ← Result.expect (world.combatants.get? head)
  let combat ← Result.expect world.combat
  let turn := (Delivery.turnStart head).emit world
  pure (turn.1, { TransitionFacts.none with turnStarted := some (head, combat.round) },
    { turn.2 with combat := some { combat with active := some head } })

def silent {α : Type} (call : Result CombatError α) : Result CombatError (List Delivery × α) :=
  call.bind fun out ↦ .ok ([], out)

/-- `advance_tracked`. -/
def advanceTrackedLogged (world : World) :
    Result CombatError (List Delivery × TransitionFacts × World) :=
  if world.rtAlive ≥ 2 then
    if world.timeline.isEmpty then rolloverLogged world else nextTurnLogged world
  else silent (terminate world)

/-- A turn-based use after its resolution. -/
def settleUseLogged (world : World) (actor : EntityId) (ability : Ulid) :
    Result CombatError (List Delivery × TransitionFacts × World) := do
  let combat ← Result.expect world.combat
  let entry ← Result.expect (abilityEntry combat.definition ability)
  let cleared := unscheduleDead world
  if cleared.rtAlive < 2 then
    let popped := if cleared.timeline.contains actor then endTurn cleared else cleared
    pure ([], { TransitionFacts.none with
        encounterEnded := some (combat.definition.encounter, combat.round) },
      { popped with combat := some { combat with active := none } })
  else if cleared.timeline.contains actor = false then advanceTrackedLogged cleared
  else if entry.endsTurn then advanceTrackedLogged (endTurn cleared)
  else pure ([], TransitionFacts.none,
    { cleared with combat := some { combat with active := some actor } })

/-- `perform_action_tracked`. -/
def performActionLogged (world : World) (action : CombatAction) :
    Result CombatError (List Delivery × (Option ActionOutcome × TransitionFacts) × World) := do
  validateAction world action
  match action with
  | .stop actor =>
    let _ ← Result.expect (world.combatants.get? actor)
    pure ([], (none, TransitionFacts.none),
      world.modifyCombatant actor fun state ↦ { state with order := none })
  | .endTurn _ =>
    let advanced ← advanceTrackedLogged (endTurn (unscheduleDead world))
    pure (advanced.1, (none, advanced.2.1), advanced.2.2)
  | .useAbility actor ability target =>
    let combat ← Result.expect world.combat
    match combat.mode with
    | .realTime =>
      let entry ← Result.expect (abilityEntry combat.definition ability)
      let _ ← Result.expect (world.combatants.get? actor)
      pure ([], (none, TransitionFacts.none), world.modifyCombatant actor fun state ↦
        { state with order := some ⟨ability, target, entry.repeatsInRealTime⟩ })
    | .turnBased =>
      let resolved ← resolveUse world actor ability target
      let settled ← settleUseLogged resolved.2 actor ability
      pure (settled.1, (some resolved.1, settled.2.1), settled.2.2)

def roundBoundaryLogged (world : World) :
    Result CombatError (List Delivery × TransitionFacts × World) := do
  let combat ← Result.expect world.combat
  let taken := { world with combat := some { combat with pendingMode := none } }
  if combat.pendingMode = some .turnBased then do
    let started ← switchToTurnBasedLogged taken
    pure (started.1, { TransitionFacts.none with
      modeChanged := some (.turnBased, started.2.1.2)
      turnStarted := some started.2.1 }, started.2.2)
  else do
    let started ← rtRoundStartLogged taken
    pure (started.1, { TransitionFacts.none with roundStarted := some started.2.1 }, started.2.2)

/-- `clock_stage`. -/
def clockStageLogged (world : World) :
    Result CombatError (List Delivery × TransitionFacts × World) :=
  if rtRunning world then do
    let combat ← Result.expect world.combat
    let clock ← Result.expect combat.clock
    let new := clock.elapsed + 1
    let ticked := { world with
      combat := some { combat with clock := some { clock with elapsed := new } } }
    if new = rtClockMax then pure ([], TransitionFacts.none, ticked)
    else do
      let delivered := (Delivery.advance clock.elapsed new).emit ticked
      Result.panicIf (clock.roundTicks = 0)
      if new % clock.roundTicks ≠ 0 then
        pure (delivered.1, TransitionFacts.none, delivered.2)
      else do
        let boundary ← roundBoundaryLogged delivered.2
        pure (delivered.1 ++ boundary.1, boundary.2)
  else .ok ([], TransitionFacts.none, world)

/-- `tick_tracked`: the execution of orders delivers nothing. -/
def tickLogged (world : World) : Result CombatError (List Delivery × TickFacts × World) :=
  (clockStageLogged world.advanceTick).bind fun staged ↦
    (executionStage staged.2.2 staged.2.1).bind fun executed ↦ .ok (staged.1, executed)

def settleDespawnLogged (stripped : World) (prior : Option CombatState) (id : EntityId) :
    Result CombatError (List Delivery × TransitionFacts × World) :=
  if stripped.combatants.isEmpty then
    .ok ([], { TransitionFacts.none with
        encounterEnded := prior.bind fun combat ↦
          combat.active.map fun _ ↦ (combat.definition.encounter, combat.round) },
      { stripped with combat := none })
  else if (stripped.combat.bind CombatState.active) = some id then advanceTrackedLogged stripped
  else .ok ([], TransitionFacts.none, stripped)

/-- `despawn_tracked`. -/
def despawnLogged (world : World) (id : EntityId) :
    Result CombatError (List Delivery × (Bool × TransitionFacts) × World) :=
  match world.entities.remove id with
  | (none, _) => .ok ([], (false, TransitionFacts.none), world)
  | (some _, entities) =>
    (settleDespawnLogged (strip world entities id) world.combat id).bind fun settled ↦
      let facts := match priorRtAlive world, world.combat with
        | some before, some combat =>
          if before ≥ 2 ∧ settled.2.2.rtAlive < 2 then
            { settled.2.1 with
              encounterEnded := some (combat.definition.encounter, combat.round) }
          else settled.2.1
        | _, _ => settled.2.1
      .ok (settled.1, (true, facts), { settled.2.2 with
        events := settled.2.2.events.push settled.2.2.tick (.despawned id) })

def firstTurnLogged (mode : EncounterMode) (world : World) :
    Result CombatError (List Delivery × Option EntityId × World) :=
  match mode with
  | .realTime => .ok ([], none, world)
  | .turnBased =>
    match world.timeline.head? with
    | none => .ok ([], none, world)
    | some head => (Result.expect (world.combatants.get? head)).bind fun _ ↦
        let turn := (Delivery.turnStart head).emit world
        .ok (turn.1, some head, turn.2)

/-- A start up to the publication of its combatants. -/
def published (world : World) (spec : EncounterSpec) (mode : EncounterMode) :
    Result CombatError (Prepared × World) := do
  let prepared ← prepare world spec mode
  let sources ← Result.mapM (sourceOf world prepared) prepared.pending
  Result.failIf (sources.all fun entry ↦ entry.2 = .skip) .noEntrants
  let rolled ← rollInitiative world prepared.definition sources
  let members ← Result.foldlM (publishMember mode prepared.definition) rolled.1 rolled.2
  pure (prepared, { members with interners := (members.interners.internTag combatRollTag).2 })

/-- `start_encounter_in_mode_tracked`: only its first turn delivers. -/
def startEncounterInModeLogged (world : World) (spec : EncounterSpec) (mode : EncounterMode) :
    Result CombatError (List Delivery × StartFacts × World) := do
  let (prepared, entered) ← published world spec mode
  let first ← firstTurnLogged mode entered
  pure (first.1, ⟨first.2.1.map fun actor ↦ (actor, 0)⟩, { first.2.2 with
    combat := some
      { definition := prepared.definition
        round := 0
        active := first.2.1
        mode := mode
        clock := prepared.clock
        pendingMode := none
        lifecycle := prepared.lifecycle } })

/-! ### Erasure -/

section Erasure

variable (world : World)

theorem erased_tbRoundStartLogged : erased (tbRoundStartLogged world) = tbRoundStart world := by
  simp only [erased, tbRoundStartLogged, tbRoundStart, bind_eq, pure_eq, Result.bind_assoc, ok_bind]
  rfl

/-- Two passes over those alive are one. -/
theorem mapAlive_mapAlive (first second : Combatant → Combatant)
    (hfirst : ∀ state, (first state).dead = state.dead) :
    (world.mapAlive first).mapAlive second = world.mapAlive fun state ↦ second (first state) := by
  unfold World.mapAlive IndexMap.mapValues
  dsimp only
  congr 2
  rw [List.map_map]
  refine List.map_congr_left fun entry _ ↦ ?_
  dsimp only [Function.comp_apply]
  by_cases hdead : entry.2.dead = true
  · rw [if_pos hdead, if_pos hdead, if_pos hdead]
  · rw [if_neg hdead, if_neg hdead, hfirst, if_neg hdead]

theorem erased_rtRoundStartLogged : erased (rtRoundStartLogged world) = rtRoundStart world := by
  have hpass : Delivery.turnStartAll.deliver (Delivery.roundStart.deliver world) =
      world.mapAlive fun state ↦ (state.refresh .roundStart).refresh .turnStart :=
    mapAlive_mapAlive world (fun state ↦ state.refresh .roundStart) _ fun _ ↦ rfl
  simp only [erased, rtRoundStartLogged, Delivery.emit, rtRoundStart, bind_eq, pure_eq,
    Result.bind_assoc, ok_bind, hpass]

theorem erased_switchToRealTimeLogged :
    erased (switchToRealTimeLogged world) = switchToRealTime world := by
  simp only [erased, switchToRealTimeLogged, switchToRealTime, bind_eq, Result.bind_assoc,
    ← erased_rtRoundStartLogged]

theorem erased_switchToTurnBasedLogged :
    erased (switchToTurnBasedLogged world) = switchToTurnBased world := by
  simp only [erased, switchToTurnBasedLogged, switchToTurnBased, bind_eq, Result.bind_assoc,
    ← erased_tbRoundStartLogged]

theorem erased_rolloverLogged : erased (rolloverLogged world) = rollover world := by
  simp only [rolloverLogged, rollover, bind_eq, pure_eq, erased, Result.bind_assoc]
  refine congrArg _ (funext fun combat ↦ ?_)
  cases combat.clock with
  | none =>
    simp only [← erased_tbRoundStartLogged, erased, Result.bind_assoc, ok_bind]
  | some clock =>
    dsimp only
    split_ifs
    · simp only [← erased_switchToRealTimeLogged, erased, Result.bind_assoc, ok_bind]
      rfl
    · simp only [← erased_tbRoundStartLogged, erased, Result.bind_assoc, ok_bind]
      rfl

theorem erased_silent {α : Type} (call : Result CombatError α) : erased (silent call) = call := by
  cases call <;> rfl

theorem erased_advanceTrackedLogged :
    erased (advanceTrackedLogged world) = advanceTracked world := by
  unfold advanceTrackedLogged advanceTracked
  split_ifs
  · exact erased_rolloverLogged world
  · simp only [erased, nextTurnLogged, nextTurn, bind_eq, pure_eq, Result.bind_assoc, ok_bind]
    rfl
  · exact erased_silent _

theorem erased_settleUseLogged (actor : EntityId) (ability : Ulid) :
    erased (settleUseLogged world actor ability) = settleUse world actor ability := by
  simp only [settleUseLogged, settleUse, bind_eq, pure_eq, erased, Result.bind_assoc]
  refine congrArg _ (funext fun combat ↦ congrArg _ (funext fun entry ↦ ?_))
  split_ifs
  · rfl
  · rfl
  · exact erased_advanceTrackedLogged _
  · exact erased_advanceTrackedLogged _
  · rfl

theorem erased_performActionLogged (action : CombatAction) :
    erased (performActionLogged world action) = performActionTracked world action := by
  simp only [performActionLogged, performActionTracked, bind_eq, pure_eq, erased, Result.bind_assoc]
  refine congrArg _ (funext fun _ ↦ ?_)
  cases action with
  | stop actor => simp only [Result.bind_assoc, ok_bind]
  | endTurn actor =>
    simp only [← erased_advanceTrackedLogged, erased, Result.bind_assoc, ok_bind]
  | useAbility actor ability target =>
    simp only [Result.bind_assoc]
    refine congrArg _ (funext fun combat ↦ ?_)
    cases combat.mode with
    | realTime => simp only [Result.bind_assoc, ok_bind]
    | turnBased => simp only [← erased_settleUseLogged, erased, Result.bind_assoc, ok_bind]

theorem erased_roundBoundaryLogged : erased (roundBoundaryLogged world) = roundBoundary world := by
  simp only [roundBoundaryLogged, roundBoundary, bind_eq, pure_eq, erased, Result.bind_assoc]
  refine congrArg _ (funext fun combat ↦ ?_)
  split_ifs
  · simp only [← erased_switchToTurnBasedLogged, erased, Result.bind_assoc, ok_bind]
  · simp only [← erased_rtRoundStartLogged, erased, Result.bind_assoc, ok_bind]

theorem erased_clockStageLogged : erased (clockStageLogged world) = clockStage world := by
  unfold clockStageLogged clockStage
  split_ifs
  · simp only [bind_eq, pure_eq, erased, Result.bind_assoc]
    refine congrArg _ (funext fun combat ↦ congrArg _ (funext fun clock ↦ ?_))
    split_ifs
    · rfl
    · simp only [Result.bind_assoc]
      rfl
    · simp only [Result.bind_assoc, ← erased_roundBoundaryLogged, erased, ok_bind]
      rfl
  · rfl

theorem erased_tickLogged : erased (tickLogged world) = tickTracked world := by
  simp only [tickLogged, tickTracked, ← erased_clockStageLogged, erased, Result.bind_assoc, ok_bind]
  refine congrArg _ (funext fun staged ↦ ?_)
  cases executionStage staged.2.2 staged.2.1 <;> rfl

theorem erased_despawnLogged (id : EntityId) :
    erased (despawnLogged world id) = despawnTracked world id := by
  unfold despawnLogged despawnTracked
  rcases world.entities.remove id with ⟨_ | value, entities⟩
  · rfl
  · have hsettle : erased (settleDespawnLogged (strip world entities id) world.combat id) =
        settleDespawn (strip world entities id) world.combat id := by
      unfold settleDespawnLogged settleDespawn
      split_ifs
      · rfl
      · exact erased_advanceTrackedLogged _
      · rfl
    dsimp only
    rw [← hsettle]
    cases settleDespawnLogged (strip world entities id) world.combat id <;> rfl

theorem erased_firstTurnLogged (mode : EncounterMode) :
    erased (firstTurnLogged mode world) = firstTurn mode world := by
  unfold firstTurnLogged firstTurn
  cases mode with
  | realTime => rfl
  | turnBased =>
    cases world.timeline.head? with
    | none => rfl
    | some head =>
      dsimp only
      cases world.combatants.get? head <;> rfl

theorem erased_startEncounterInModeLogged (spec : EncounterSpec) (mode : EncounterMode) :
    erased (startEncounterInModeLogged world spec mode) =
      startEncounterInModeTracked world spec mode := by
  simp only [startEncounterInModeLogged, published, startEncounterInModeTracked, bind_eq, pure_eq,
    erased, Result.bind_assoc, ← erased_firstTurnLogged, ok_bind]

end Erasure

end Crpg.Sim
