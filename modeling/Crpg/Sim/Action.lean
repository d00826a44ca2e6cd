import Crpg.Sim.Plan

/-!
# Validating and resolving actions

`validate_action` and `resolve_use` of `crpg-sim/src/combat.rs` with the helpers they call.
Validation mutates nothing. Resolution is the shared half of a turn-based use and of a real-time
order: the kernel's resolution on the combat stream, the costs, the damage with its death, and the
effect; scheduling is the caller's. Every `expect` of the source is a panic of `Result`.
-/

set_option autoImplicit false

namespace Crpg.Sim

open Crpg.Core Crpg.Lib Crpg.Rules Crpg.Data

/-! ### Validation -/

/-- A checked sum of the costs naming one pool; `none` is an overflow of `u32`. -/
def costSum (costs : List (Ulid × ℕ)) (pool : Ulid) : Option ℕ :=
  (costs.filter fun cost ↦ cost.1 = pool).foldl (fun total cost ↦ total.bind fun total ↦
    if total + cost.2 ≤ u32Max then some (total + cost.2) else none) (some 0)

def checkPool (combatant : Combatant) (costs : List (Ulid × ℕ)) (pool : Ulid) :
    Result CombatError Unit :=
  (Result.okOr .valueOverflow (costSum costs pool)).bind fun total ↦
    let current := (poolBalance combatant pool).getD 0
    Result.failIf (current < total) (.insufficientAction pool total current)

/-- The pools of a cost list that are not templates, each once, in order of first mention. -/
def unknownPools (definition : CombatDefinition) (costs : List (Ulid × ℕ)) : List Ulid :=
  ((costs.map Prod.fst).filter fun pool ↦
    !definition.pools.any fun template ↦ template.id = pool).eraseDups

def checkCosts (definition : CombatDefinition) (combatant : Combatant)
    (costs : List (Ulid × ℕ)) : Result CombatError Unit :=
  (Result.forM (fun template : PoolTemplate ↦
    if costs.any fun cost ↦ cost.1 = template.id then checkPool combatant costs template.id
    else .ok ()) definition.pools).bind fun _ ↦
  Result.forM (checkPool combatant costs) (unknownPools definition costs)

/-- The actor checks of `EndTurn` and `Stop`: a live combatant that is not dead. -/
def checkActor (world : World) (actor : EntityId) : Result CombatError Unit := do
  Result.failIf (world.contains actor = true ∧ world.combatants.contains actor = false)
    (.notParticipant actor)
  Result.failIf (world.contains actor = false) (.absentActor actor)
  let state ← Result.expect (world.combatants.get? actor)
  Result.failIf (state.dead = true) (.deadActor actor)

/-- The turn stage of `UseAbility`. -/
def checkTurn (world : World) (combat : CombatState) (actor : EntityId) : Result CombatError Unit :=
  match combat.mode with
  | .turnBased => Result.failIf (combat.active ≠ some actor) (.outOfTurn actor combat.active)
  | .realTime => Result.failIf (world.rtAlive < 2) (.outOfTurn actor none)

/-- The participant checks of `UseAbility`, in the pinned order. -/
def checkPair (world : World) (actor target : EntityId) : Result CombatError Combatant := do
  Result.failIf (world.contains actor = true ∧ world.combatants.contains actor = false)
    (.notParticipant actor)
  Result.failIf (world.contains target = true ∧ world.combatants.contains target = false)
    (.notParticipant target)
  Result.failIf (world.contains actor = false) (.absentActor actor)
  Result.failIf (world.contains target = false) (.absentTarget target)
  let actorState ← Result.expect (world.combatants.get? actor)
  let targetState ← Result.expect (world.combatants.get? target)
  Result.failIf (actorState.dead = true) (.deadActor actor)
  Result.failIf (targetState.dead = true) (.deadTarget target)
  pure actorState

/-- The checks of `UseAbility` against an encounter. -/
def checkUse (world : World) (combat : CombatState) (actor : EntityId) (ability : Ulid)
    (target : EntityId) : Result CombatError Unit := do
  let actorState ← checkPair world actor target
  checkTurn world combat actor
  let entry ← Result.okOr (.unknownAbility ability) (abilityEntry combat.definition ability)
  Result.failIf (target = actor ∧ entry.allowSelfTarget = false) .selfTarget
  checkCosts combat.definition actorState entry.costs
  -- A derived formula can fail mid-fight, so the last stage runs the action's stat queries.
  if combat.definition.derived = [] then pure ()
  else do
    let _ ← actionPlan world world.interners entry actor target
    pure ()

/-- Checks one action against the admission rules without mutating anything. -/
def validateAction (world : World) (action : CombatAction) : Result CombatError Unit := do
  let combat ← Result.okOr .noEncounter world.combat
  match action with
  | .stop actor =>
    checkActor world actor
    match combat.mode with
    | .turnBased => .err (.wrongMode .turnBased)
    | .realTime => Result.failIf (world.rtAlive < 2) (.outOfTurn actor none)
  | .endTurn actor =>
    checkActor world actor
    Result.failIf (combat.mode = .realTime) (.wrongMode .realTime)
    Result.failIf (combat.active ≠ some actor) (.outOfTurn actor combat.active)
  | .useAbility actor ability target => checkUse world combat actor ability target

/-! ### Resolution -/

/-- `damage_for`: the flat damage of an outcome plus its dice, clamped into `u32`. -/
def damageFor (entry : AbilityDefinition) (outcome : Outcome) (rng : DeterministicRng) :
    Result CombatError (ℕ × DeterministicRng) :=
  let flat := ((entry.damage.find? fun item ↦ item.1 = outcome).map Prod.snd).getD 0
  match entry.damageDice.find? fun item ↦ item.1 = outcome with
  | none => .ok (flat, rng)
  | some (_, dice) =>
    (Result.expectOk (dice.evaluate rng combatRollStream)).bind fun evaluated ↦
    (Result.expect evaluated).bind fun rolled ↦
      .ok ((max 0 (min (u32Max : ℤ) ((flat : ℤ) + rolled.1.total))).toNat, rolled.2)

/-- Spends from the first of the pools with an identity; `none` is a failed `expect`. -/
def spendFirst (pool : Ulid) (amount : ℕ) : List ResourcePool → Option (List ResourcePool)
  | [] => none
  | entry :: rest =>
    if entry.id = pool then
      match entry.spend amount with
      | .ok spent => some (spent :: rest)
      | .error _ => none
    else (spendFirst pool amount rest).map (entry :: ·)

def spendCost (combatant : Combatant) (cost : Ulid × ℕ) : Result CombatError Combatant :=
  if combatant.actionPool.id = cost.1 then
    (Result.expectOk (combatant.actionPool.spend cost.2)).bind fun pool ↦
      .ok { combatant with actionPool := pool }
  else (Result.expect (spendFirst cost.1 cost.2 combatant.extraPools)).bind fun pools ↦
    .ok { combatant with extraPools := pools }

/-- `spend_costs`: spends every pool cost of an actor. -/
def spendCosts (world : World) (actor : EntityId) (costs : List (Ulid × ℕ)) :
    Result CombatError World :=
  (Result.expect (world.combatants.get? actor)).bind fun combatant ↦
    (Result.foldlM spendCost combatant costs).bind fun spent ↦
      .ok (world.modifyCombatant actor fun _ ↦ spent)

/-- A combatant after damage: health floored at zero, dead at zero. -/
def Combatant.hit (combatant : Combatant) (damage : ℕ) : Combatant :=
  { combatant with
    health := combatant.health - damage
    dead := combatant.dead || decide (combatant.health - damage = 0) }

/-- The damage of one resolution: the world after it and whether the target died. -/
def applyDamage (world : World) (target : EntityId) (damage : ℕ) :
    Result CombatError (World × Bool) :=
  if 0 < damage then
    (Result.expect (world.combatants.get? target)).bind fun state ↦
      let hit := world.modifyCombatant target fun state ↦ state.hit damage
      if state.health - damage = 0 then
        .ok ({ hit with events := hit.events.push hit.tick (.died target) }, true)
      else .ok (hit, false)
  else .ok (world, false)

/-- Refreshes the attachment of an effect in place, or adds it in identity order. -/
def attach (attached : List AttachedEffect) (effect : Ulid) (expiresRound : ℕ) :
    List AttachedEffect :=
  match attached.findIdx? fun item ↦ item.effect = effect with
  | some index => attached.modify index fun item ↦ { item with expiresRound := expiresRound }
  | none =>
    let added : AttachedEffect := ⟨effect, expiresRound⟩
    (attached ++ [added]).insertionSort fun first second ↦ first.effect ≤ second.effect

/-- `attach_effect`: attaches one effect on success. -/
def attachEffect (world : World) (definition : CombatDefinition) (effect : Ulid)
    (actor target : EntityId) (round : ℕ) : World :=
  match effectEntry definition effect with
  | none => world
  | some entry =>
    let holder := match entry.aim with
      | .slf => actor
      | .target => target
    world.modifyCombatant holder fun combatant ↦
      let expiresRound := saturatingAdd u32Max round entry.durationRounds
      { combatant with attached := attach combatant.attached effect expiresRound }

/-- Whether an outcome attaches the ability's effect. -/
def Outcome.succeeds : Outcome → Bool
  | .success => true
  | .criticalSuccess => true
  | _ => false

def applyEffect (world : World) (definition : CombatDefinition) (entry : AbilityDefinition)
    (outcome : Outcome) (actor target : EntityId) (round : ℕ) : World :=
  if Outcome.succeeds outcome then
    match entry.effect with
    | some effect => attachEffect world definition effect actor target round
    | none => world
  else world

def internDefense (world : World) (defense : AbilityDefense) : World :=
  match defense with
  | .targetStat stat => { world with interners := (world.interners.internStat stat).2 }
  | _ => world

def useRequest (entry : AbilityDefinition) (plan : ActionPlan) (actor target : EntityId) :
    ResolutionRequest where
  roll :=
    { actor := actor
      roll := .dice entry.dice
      bonusTarget := plan.rollTag
      naturalDie := entry.naturalDie
      stream := combatRollStream
      tags := ∅ }
  target := some target
  against := plan.against
  outcomeTable := entry.outcomeTable.id

/-- The kernel views of one use: one view when the actor targets itself. -/
def useContext (entry : AbilityDefinition) (plan : ActionPlan) (actor target : EntityId) :
    ResolutionContext where
  pipeline := plan.pipeline
  entities :=
    let own := BTreeMap.empty.insert actor
      ⟨actor, plan.actorStats, plan.actorTags, plan.actorMods⟩
    if actor = target then own
    else own.insert target ⟨target, plan.targetStats, plan.targetTags, plan.targetMods⟩
  outcomeTable := entry.outcomeTable

/-- `resolve_use`: kernel resolution, cost spend, damage with its death, and effect attachment. The
caller must have validated the action. -/
def resolveUse (world : World) (actor : EntityId) (ability : Ulid) (target : EntityId) :
    Result CombatError (ActionOutcome × World) := do
  let combat ← Result.expect world.combat
  let entry ← Result.expect (abilityEntry combat.definition ability)
  let interned := internDefense world entry.defense
  let plan ← Result.unwrap (actionPlan interned interned.interners entry actor target)
  let resolved ← Result.unwrap (resolve (useRequest entry plan actor target)
    (useContext entry plan actor target) interned.rng)
  let decision := resolved.1.decision.outcome
  let damage ← damageFor entry decision resolved.2
  let spent ← spendCosts { interned with rng := damage.2 } actor entry.costs
  let damaged ← applyDamage spent target damage.1
  let final := applyEffect damaged.1 combat.definition entry decision actor target combat.round
  let roll ← Result.expect resolved.1.actor.roll
  pure (⟨actor, target, ability, roll, resolved.1.margin, decision, damage.1, damaged.2⟩, final)

end Crpg.Sim
