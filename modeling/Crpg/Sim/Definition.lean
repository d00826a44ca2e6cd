import Crpg.Data.Combat

/-!
# Combat state

The data of `crpg-sim/src/combat.rs` and `creature.rs`: the immutable combat definition, combatants,
encounter state, creature records, actions, errors and the transition facts the mutators report.
Names of stats and tags are strings throughout; interned handles live only inside one action.
-/

set_option autoImplicit false

namespace Crpg.Sim

open Crpg.Core Crpg.Lib Crpg.Rules Crpg.Data

/-- The largest participant count of an encounter. -/
def maxCombatants : ℕ := 1024

/-- The largest stat count of a ruleset. -/
def maxCombatStats : ℕ := 1024

/-- The largest encounter-clock value. -/
def rtClockMax : ℕ := 2147483647

def combatRollStream : String := "combat.roll"

def combatRollTag : String := "roll"

/-- The reserved modifier type of bonus-stat contributions. -/
def combatBonusModType : String := "combat.bonus_stat"

def effectSourceKind : String := "effect"

def bonusSourceKind : String := "bonus_stat"

inductive EncounterMode
  | turnBased
  | realTime
deriving DecidableEq

/-- The clock of one encounter that can run in real time. -/
structure EncounterClock where
  roundTicks : ℕ
  elapsed : ℕ
deriving DecidableEq

structure StandingOrder where
  ability : Ulid
  target : EntityId
  repeats : Bool
deriving DecidableEq

inductive IntFormula
  | literal (value : ℤ)
  | stat (name : String)
  | binary (op : BinaryOp) (left right : IntFormula)
deriving DecidableEq

structure DerivedStat where
  name : String
  formula : IntFormula
deriving DecidableEq

structure InitiativeRule where
  dice : DiceExpr
  bonusStats : List String
deriving DecidableEq

structure AttachedEffect where
  effect : Ulid
  expiresRound : ℕ
deriving DecidableEq

/-- One combatant's mutable state. -/
structure Combatant where
  placement : Ulid
  initiative : ℤ
  attributes : List (String × ℤ)
  health : ℕ
  maxHealth : ℕ
  dead : Bool
  actionPool : ResourcePool
  extraPools : List ResourcePool
  attached : List AttachedEffect
  order : Option StandingOrder
  tags : List String
  fixed : List (String × Fx16)
  entered : Bool
deriving DecidableEq

inductive AbilityDefense
  | actorAttribute
  | targetStat (stat : String)
  | constant (value : ℤ)
  | actorStat (stat : String)
  | opposed (dice : DiceExpr) (bonusStats : List String)
deriving DecidableEq

structure EffectDefinition where
  effect : Ulid
  aim : EffectAim
  modType : String
  policy : StackingPolicy
  modifiers : List EffectModifier
  durationRounds : ℕ
  grants : List String
deriving DecidableEq

structure PoolTemplate where
  id : Ulid
  max : ℕ
  refresh : RefreshTrigger
deriving DecidableEq

structure AbilityDefinition where
  ability : Ulid
  dice : DiceExpr
  attributeName : String
  defense : AbilityDefense
  outcomeTable : OutcomeTable
  damage : List (Outcome × ℕ)
  costs : List (Ulid × ℕ)
  endsTurn : Bool
  effect : Option Ulid
  naturalDie : Option ℕ
  requiresTarget : Bool
  allowSelfTarget : Bool
  recoveryTicks : Option ℕ
  repeatsInRealTime : Bool
  bonusStats : List String
  damageDice : List (Outcome × DiceExpr)
deriving DecidableEq

/-- The immutable combat definition, with the legacy copies of the first-listed ability and the
primary pool. -/
structure CombatDefinition where
  encounter : Ulid
  ruleset : Ulid
  ability : Ulid
  dice : DiceExpr
  attributeName : String
  healthStat : String
  attributeNames : List String
  damage : List (Outcome × ℕ)
  cost : ℕ
  requiresTarget : Bool
  allowSelfTarget : Bool
  outcomeTable : OutcomeTable
  poolId : Ulid
  poolMax : ℕ
  poolRefresh : RefreshTrigger
  abilities : List AbilityDefinition
  pools : List PoolTemplate
  effects : List EffectDefinition
  derived : List DerivedStat
  initiative : Option InitiativeRule
deriving DecidableEq

/-- What a creature's attached effects become at exit. -/
inductive EffectsOnExit
  | suspend
  | strip
  | stripAtRelease
deriving DecidableEq

/-- The creature-lifecycle rules of one encounter. -/
structure Lifecycle where
  respawns : Bool
  effectsOnExit : EffectsOnExit
deriving DecidableEq

structure CombatState where
  definition : CombatDefinition
  round : ℕ
  active : Option EntityId
  mode : EncounterMode
  clock : Option EncounterClock
  pendingMode : Option EncounterMode
  lifecycle : Lifecycle
deriving DecidableEq

structure SuspendedEffect where
  effect : Ulid
  remainingRounds : ℕ
deriving DecidableEq

/-- One creature's state outside every encounter. -/
structure CreatureState where
  placement : Ulid
  ruleset : Ulid
  attributes : List (String × ℤ)
  fixed : List (String × Fx16)
  health : ℕ
  maxHealth : ℕ
  pools : List ResourcePool
  suspended : List SuspendedEffect
  tags : List String
deriving DecidableEq

def CreatureState.dead (record : CreatureState) : Bool := record.health = 0

/-- One player or authoritative action. -/
inductive CombatAction
  | useAbility (actor : EntityId) (ability : Ulid) (target : EntityId)
  | endTurn (actor : EntityId)
  | stop (actor : EntityId)
deriving DecidableEq

/-- The observed result of one accepted action. -/
structure ActionOutcome where
  actor : EntityId
  target : EntityId
  ability : Ulid
  roll : DiceRoll
  margin : ℤ
  outcome : Outcome
  damage : ℕ
  targetDied : Bool
deriving DecidableEq

inductive CombatError
  | noEncounter
  | encounterActive
  | notParticipant (entity : EntityId)
  | absentActor (actor : EntityId)
  | absentTarget (target : EntityId)
  | deadActor (actor : EntityId)
  | deadTarget (target : EntityId)
  | outOfTurn (actor : EntityId) (active : Option EntityId)
  | unknownAbility (ability : Ulid)
  | selfTarget
  | insufficientAction (pool : Ulid) (cost current : ℕ)
  | missingPlacement (placement : Ulid)
  | mixedArea (areaA areaB : Ulid)
  | missingCreature (prefabId : Ulid)
  | missingStat (stat : String)
  | invalidStatValue (stat : String)
  | invalidCost (cost max : ℕ)
  | invalidDice
  | invalidOutcomeTable
  | valueOverflow
  | tooManyParticipants
  | tooManyStats
  | missingPool (pool : Ulid)
  | missingEffect (effect : Ulid)
  | invalidEffect (effect : Ulid)
  | duplicateModifier (id : Ulid)
  | invalidNaturalDie (index : ℕ)
  | policyConflict (modType : String)
  | areaMismatch (expected found : Ulid)
  | modeUnsupported
  | wrongMode (mode : EncounterMode)
  | tooManyTags
  | statEvaluation (stat : String)
  | placementInUse (placement : Ulid)
  | rulesetMismatch (entity : EntityId)
  | noEntrants
deriving DecidableEq

/-- What the branches of a mutator observed. -/
structure TransitionFacts where
  turnStarted : Option (EntityId × ℕ)
  encounterEnded : Option (Ulid × ℕ)
  modeChanged : Option (EncounterMode × ℕ)
  roundStarted : Option ℕ
deriving DecidableEq

def TransitionFacts.none : TransitionFacts := ⟨.none, .none, .none, .none⟩

/-- One stage-3 fact of a tick, in execution order. -/
inductive TickEvent
  | resolved (outcome : ActionOutcome)
  | orderEnded (actor : EntityId)
deriving DecidableEq

/-- Everything one tick observed. -/
structure TickFacts where
  transitions : TransitionFacts
  events : List TickEvent
deriving DecidableEq

/-- Something that happened to the world. -/
inductive SimEvent
  | spawned (entity : EntityId)
  | despawned (entity : EntityId)
  | died (entity : EntityId)
deriving DecidableEq

structure ParticipantResult where
  placement : Ulid
  entity : EntityId
  health : ℕ
  dead : Bool
deriving DecidableEq

/-- The retained outcome of one released encounter. -/
structure EncounterSummary where
  encounter : Ulid
  ruleset : Ulid
  round : ℕ
  results : List ParticipantResult
deriving DecidableEq

/-- Looks up one ability entry by identity. -/
def abilityEntry (definition : CombatDefinition) (ability : Ulid) : Option AbilityDefinition :=
  definition.abilities.find? fun entry ↦ entry.ability = ability

/-- Looks up one effect entry by identity. -/
def effectEntry (definition : CombatDefinition) (effect : Ulid) : Option EffectDefinition :=
  definition.effects.find? fun entry ↦ entry.effect = effect

def poolBalance (combatant : Combatant) (pool : Ulid) : Option ℕ :=
  if combatant.actionPool.id = pool then some combatant.actionPool.current
  else (combatant.extraPools.find? fun entry ↦ entry.id = pool).map ResourcePool.current

def Combatant.refresh (combatant : Combatant) (event : RefreshEvent) : Combatant :=
  { combatant with
    actionPool := combatant.actionPool.refresh event
    extraPools := combatant.extraPools.map fun pool ↦ pool.refresh event }

/-- Drops the attachments that lapse at a round. -/
def Combatant.expire (combatant : Combatant) (round : ℕ) : Combatant :=
  { combatant with attached := combatant.attached.filter fun item ↦ round < item.expiresRound }

end Crpg.Sim
