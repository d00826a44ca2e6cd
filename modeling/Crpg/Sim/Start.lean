import Crpg.Sim.Turn

/-!
# Starting an encounter

`start_encounter_in_mode_tracked` of `crpg-sim/src/combat.rs` and `register_creature` of
`creature.rs`. The checks run in the source's order, stage by stage, before anything is published;
each stage is a definition here. Publication then spawns or enters the participants in authored
order. The data-owned preconditions of the source are panics.
-/

set_option autoImplicit false

namespace Crpg.Sim

open Crpg.Core Crpg.Lib Crpg.Rules Crpg.Data

/-! ### Specifications -/

structure PlacementAndArea where
  placement : Placement
  area : Ulid
deriving DecidableEq

/-- The resolved references of one encounter. -/
structure EncounterSpec where
  encounter : Encounter
  ruleset : Ruleset
  abilities : BTreeMap Ulid Ability
  outcomeTables : BTreeMap Ulid OutcomeTableDoc
  placements : BTreeMap Ulid PlacementAndArea
  creatures : BTreeMap Ulid Creature
  effects : BTreeMap Ulid Effect

/-- The resolved references of one registration. -/
structure CreatureSpec where
  ruleset : Ruleset
  placement : Placement
  area : Ulid
  creature : Creature

structure StartFacts where
  initialTurn : Option (EntityId × ℕ)
deriving DecidableEq

/-! ### Creature stats -/

/-- The base stats and tags one prefab carries under one ruleset. -/
structure CreatureStats where
  attributes : List (String × ℤ)
  health : ℕ
  fixed : List (String × Fx16)
  tags : List String
deriving DecidableEq

/-- The accumulators of `read_creature_stats`. -/
structure StatScan where
  stats : List (String × ℤ)
  health : Option ℕ
  fixed : List (String × Fx16)

/-- One base integer stat: present, whole, in range, and positive when it is the health stat. -/
def scanInt (ruleset : Ruleset) (creature : Creature) (scan : StatScan) (name : String) :
    Result CombatError StatScan := do
  let authored ← Result.okOr (.missingStat name) (creature.stats.get? name)
  Result.failIf (authored.raw.tmod 65536 ≠ 0) (.invalidStatValue name)
  let wide := authored.raw.tdiv 65536
  Result.failIf (¬InI32 wide) .valueOverflow
  if name = ruleset.healthStat then do
    Result.failIf (wide ≤ 0) (.invalidStatValue name)
    Result.failIf (wide.toNat > u32Max) .valueOverflow
    pure { scan with health := some wide.toNat, stats := scan.stats ++ [(name, wide)] }
  else pure { scan with stats := scan.stats ++ [(name, wide)] }

def scanStat (ruleset : Ruleset) (creature : Creature) (scan : StatScan) (declaration : StatDecl) :
    Result CombatError StatScan :=
  if declaration.derived.isSome then .ok scan
  else match declaration.kind with
    | .int => scanInt ruleset creature scan declaration.name
    | .fixed => (Result.okOr (.missingStat declaration.name)
        (creature.stats.get? declaration.name)).bind fun value ↦
          .ok { scan with fixed := scan.fixed ++ [(declaration.name, value)] }
    | _ => .ok scan

/-- `read_creature_stats`: one prefab's stats and tags. -/
def readCreatureStats (ruleset : Ruleset) (creature : Creature) :
    Result CombatError CreatureStats := do
  let scan ← Result.foldlM (scanStat ruleset creature) ⟨[], none, []⟩ ruleset.stats
  let health ← Result.expect scan.health
  pure
    { attributes := scan.stats.filter fun entry ↦ entry.1 ≠ ruleset.healthStat
      health := health
      fixed := scan.fixed
      tags := sortDedup creature.tags }

/-- `convert_refresh`: a zero tick period is a caller breach. -/
def convertRefresh (refresh : RefreshTrigger) : Result CombatError RefreshTrigger :=
  (Result.panicIf (refresh = .onTick 0)).bind fun _ ↦ .ok refresh

/-! ### Formulas -/

/-- `convert_formula`: an integer formula holds only integer literals and integer stats. -/
def convertFormula (intNames : List String) : ExprWire → Result CombatError IntFormula
  | .literal (.int value) => .ok (.literal value)
  | .literal _ => .panic
  | .stat name => if name ∈ intNames then .ok (.stat name) else .panic
  | .binary op left right =>
    (convertFormula intNames left).bind fun first ↦
      (convertFormula intNames right).bind fun second ↦ .ok (.binary op first second)

def intNamesOf (ruleset : Ruleset) : List String :=
  (ruleset.stats.filter fun declaration ↦ declaration.kind = .int).map StatDecl.name

def convertDerived (intNames : List String) (derived : List DerivedStat)
    (declaration : StatDecl) : Result CombatError (List DerivedStat) :=
  match declaration.kind, declaration.derived with
  | .int, some formula => (convertFormula intNames formula).bind fun converted ↦
      .ok (derived ++ [⟨declaration.name, converted⟩])
  | _, _ => .ok derived

def attributeNamesOf (ruleset : Ruleset) : List String :=
  (ruleset.stats.filter fun declaration ↦ declaration.kind = .int && declaration.derived = none &&
    declaration.name ≠ ruleset.healthStat).map StatDecl.name

/-- The names an ability, an effect or an initiative rule may use. -/
def usable (attributeNames : List String) (derived : List DerivedStat) (name : String) : Bool :=
  attributeNames.contains name || derived.any fun entry ↦ entry.name = name

/-! ### Participants -/

/-- One participant before it is published. -/
structure Pending where
  placement : Ulid
  initiative : ℤ
  attributes : List (String × ℤ)
  health : ℕ
  tags : List String
  fixed : List (String × Fx16)
deriving DecidableEq

def resolvePlacements (spec : EncounterSpec) :
    Result CombatError (List (EncounterParticipant × PlacementAndArea)) :=
  Result.mapM (fun participant ↦ (Result.okOr (.missingPlacement participant.placement)
    (spec.placements.get? participant.placement)).bind fun resolved ↦
      .ok (participant, resolved)) spec.encounter.participants

def checkArea (world : World) (placements : List (EncounterParticipant × PlacementAndArea)) :
    Result CombatError Unit := do
  let first ← Result.expect placements.head?
  Result.forM (fun other : EncounterParticipant × PlacementAndArea ↦
    Result.failIf (other.2.area ≠ first.2.area) (.mixedArea first.2.area other.2.area))
    placements.tail
  match world.area with
  | some expected => Result.failIf (expected ≠ first.2.area) (.areaMismatch expected first.2.area)
  | none => pure ()

def readPending (spec : EncounterSpec) (resolved : EncounterParticipant × PlacementAndArea) :
    Result CombatError Pending := do
  let creature ← Result.okOr (.missingCreature resolved.2.placement.prefabId)
    (spec.creatures.get? resolved.2.placement.prefabId)
  let stats ← readCreatureStats spec.ruleset creature
  pure ⟨resolved.2.placement.id, resolved.1.initiative, stats.attributes, stats.health, stats.tags,
    stats.fixed⟩

def readInitiative (ruleset : Ruleset) (isUsable : String → Bool) :
    Result CombatError (Option InitiativeRule) :=
  match ruleset.initiative with
  | none => .ok none
  | some wire =>
    ((Result.ofExcept (DiceExpr.parse wire.dice)).mapErr fun _ ↦ .invalidDice).bind fun dice ↦
      (Result.forM (fun name ↦ Result.failIf (isUsable name = false) (.missingStat name))
        wire.bonusStats).bind fun _ ↦ .ok (some ⟨dice, wire.bonusStats⟩)

/-- The entity every probe query names: the first id of a fresh arena. -/
def probeId : EntityId := ⟨0, firstGeneration⟩

/-- The pipeline of a definition's stats without policies, with its scratch interner. -/
def statPipeline (world : World) (healthStat : String) (attributeNames : List String)
    (derived : List DerivedStat) : Result CombatError (ModifierPipeline × Interners) :=
  let definitions := intDefinitions healthStat attributeNames derived world.interners
  (Result.unwrap (ModifierPipeline.new definitions.1 BTreeMap.empty)).bind fun pipeline ↦
    .ok (pipeline, definitions.2)

/-- The first derived stat of a base block that fails to evaluate. -/
def probeFailure (pipeline : ModifierPipeline) (context : QueryContext) (scratch : Interners) :
    List DerivedStat → Result CombatError (Option String)
  | [] => .ok none
  | stat :: rest => (queryInt pipeline probeId stat.name scratch context).bind fun value ↦
      match value with
      | none => .ok (some stat.name)
      | some _ => probeFailure pipeline context scratch rest

def probePending (pipeline : ModifierPipeline) (healthStat : String) (derived : List DerivedStat)
    (scratch : Interners) (member : Pending) : Result CombatError Interners :=
  (baseBlock healthStat member.health member.attributes scratch).bind fun block ↦
    (probeFailure pipeline ⟨probeId, block.1, ∅, []⟩ block.2 derived).bind fun failed ↦
      match failed with
      | some stat => .err (.invalidStatValue stat)
      | none => .ok block.2

def probeAll (world : World) (healthStat : String) (attributeNames : List String)
    (derived : List DerivedStat) (pending : List Pending) : Result CombatError Unit :=
  if derived = [] then .ok ()
  else (statPipeline world healthStat attributeNames derived).bind fun pipeline ↦
    (Result.foldlM (probePending pipeline.1 healthStat derived) pipeline.2 pending).bind fun _ ↦
      .ok ()

/-! ### Abilities -/

/-- One ability after its checks. -/
structure ValidatedAbility where
  id : Ulid
  authored : Ability
  dice : DiceExpr
  table : OutcomeTable
  costs : List (Ulid × ℕ)
  opposed : Option DiceExpr
  damageDice : List (Outcome × DiceExpr)

def orderCosts (templates : List PoolTemplate) (primary : Ulid) (ability : Ability) :
    Result CombatError (List (Ulid × ℕ)) :=
  (Result.mapM (fun entry : AbilityCost ↦
    match templates.findIdx? fun template ↦ template.id = entry.pool with
    | some index => .ok (index, entry.pool, entry.amount)
    | none => .err (.missingPool entry.pool)) ability.extraCosts).bind fun indexed ↦
  let ordered := indexed.insertionSort fun first second ↦ first.1 ≤ second.1
  .ok ((if ability.cost > 0 then [(primary, ability.cost)] else []) ++
    ordered.map fun entry ↦ entry.2)

def templateMax (templates : List PoolTemplate) (pool : Ulid) : Option ℕ :=
  (templates.find? fun entry ↦ entry.id = pool).map PoolTemplate.max

def checkAmounts (templates : List PoolTemplate) (primary : PoolTemplate)
    (costs : List (Ulid × ℕ)) : Result CombatError Unit := do
  Result.failIf (costs = []) (.invalidCost 0 primary.max)
  Result.forM (fun cost : Ulid × ℕ ↦ do
    let max ← Result.expect (templateMax templates cost.1)
    Result.failIf (cost.2 = 0 ∨ cost.2 > max) (.invalidCost cost.2 max)) costs

def checkUsable (isUsable : String → Bool) (names : List String) : Result CombatError Unit :=
  Result.forM (fun name ↦ Result.failIf (isUsable name = false) (.missingStat name)) names

def checkDefense (isUsable : String → Bool) : DefenseWire → Result CombatError (Option DiceExpr)
  | .targetStat stat => (checkUsable isUsable [stat]).bind fun _ ↦ .ok none
  | .actorStat stat => (checkUsable isUsable [stat]).bind fun _ ↦ .ok none
  | .opposed dice bonusStats =>
    ((Result.ofExcept (DiceExpr.parse dice)).mapErr fun _ ↦ .invalidDice).bind fun parsed ↦
      (checkUsable isUsable bonusStats).bind fun _ ↦ .ok (some parsed)
  | .actorAttribute => .ok none
  | .constant _ => .ok none

def parseDamageDice : List DamageEntry → Result CombatError (List (Outcome × DiceExpr))
  | [] => .ok []
  | entry :: rest =>
    match entry.dice with
    | none => parseDamageDice rest
    | some text =>
      ((Result.ofExcept (DiceExpr.parse text)).mapErr fun _ ↦ .invalidDice).bind fun parsed ↦
        (parseDamageDice rest).bind fun others ↦ .ok ((entry.outcome, parsed) :: others)

def validateAbility (spec : EncounterSpec) (isUsable : String → Bool)
    (templates : List PoolTemplate) (primary : PoolTemplate) (id : Ulid) :
    Result CombatError ValidatedAbility := do
  let ability ← Result.okOr (.unknownAbility id) (spec.abilities.get? id)
  Result.failIf (spec.ruleset.attributes.contains ability.attributeName = false ∨
    isUsable ability.attributeName = false) (.missingStat ability.attributeName)
  let dice ← (Result.ofExcept (DiceExpr.parse ability.dice)).mapErr fun _ ↦ .invalidDice
  let authored ← Result.okOr .invalidOutcomeTable (spec.outcomeTables.get? ability.outcomeTable)
  let table ← (Result.ofExcept (OutcomeTable.new authored.id authored.bands
    authored.naturalRules)).mapErr fun _ ↦ .invalidOutcomeTable
  let costs ← orderCosts templates primary.id ability
  checkAmounts templates primary costs
  let opposed ← checkDefense isUsable ability.defense
  checkUsable isUsable (ability.bonusStats.getD [])
  let damageDice ← parseDamageDice ability.damage
  match ability.effect with
  | some effect => Result.failIf (spec.effects.contains effect = false) (.missingEffect effect)
  | none => pure ()
  match ability.naturalDie with
  | some index => Result.failIf (index ≥ dice.count) (.invalidNaturalDie index)
  | none => pure ()
  pure ⟨id, ability, dice, table, costs, opposed, damageDice⟩

/-! ### Effects -/

/-- The effects the abilities refer to, in ascending order. -/
def referencedEffects (validated : List ValidatedAbility) : List Ulid :=
  sortDedup (validated.filterMap fun entry ↦ entry.authored.effect)

def carriesBonusStats (validated : List ValidatedAbility) : Bool :=
  validated.any fun entry ↦ (entry.authored.bonusStats.any fun names ↦ names ≠ []) ||
    match entry.authored.defense with
    | .opposed _ bonusStats => bonusStats ≠ []
    | _ => false

def checkEffectModifier (isUsable : String → Bool) (effect : Ulid) (policy : StackingPolicy)
    (modifier : EffectModifier) : Result CombatError Unit := do
  Result.failIf (modifier.op = .set ∧ policy = .highestBonusWorstPenalty) (.invalidEffect effect)
  Result.failIf (modifier.name = none ∧ policy = .highestPriorityPerName) (.invalidEffect effect)
  match modifier.target with
  | .stat stat => Result.failIf (isUsable stat = false) (.missingStat stat)
  | _ => pure ()

def checkEffect (isUsable : String → Bool) (carriesBonus : Bool) (effect : Ulid)
    (authored : Effect) : Result CombatError Unit := do
  Result.failIf (authored.durationRounds = 0 ∨ authored.modifiers = [] ∨
    authored.modType.isEmpty = true) (.invalidEffect effect)
  Result.failIf (carriesBonus = true ∧ authored.modType = combatBonusModType)
    (.invalidEffect effect)
  Result.forM (checkEffectModifier isUsable effect authored.policy) authored.modifiers

/-- The modifier types that name two policies, in order of the second. -/
def policyConflicts : List Effect → BTreeMap String StackingPolicy → List String
  | [], _ => []
  | effect :: rest, byType =>
    match byType.get? effect.modType with
    | none => policyConflicts rest (byType.insert effect.modType effect.policy)
    | some kept =>
      if kept ≠ effect.policy then effect.modType :: policyConflicts rest byType
      else policyConflicts rest byType

/-- The checks over all referenced effects: each effect, duplicate modifiers, policy conflicts. -/
def checkEffects (spec : EncounterSpec) (isUsable : String → Bool) (carriesBonus : Bool)
    (referenced : List Ulid) : Result CombatError (List Effect) := do
  let authored ← Result.mapM (fun effect ↦ do
    let authored ← Result.expect (spec.effects.get? effect)
    checkEffect isUsable carriesBonus effect authored
    pure authored) referenced
  match firstDuplicate ((authored.flatMap fun effect ↦
      effect.modifiers.map EffectModifier.id).insertionSort (· ≤ ·)) with
  | some id => .err (.duplicateModifier id)
  | none =>
    match (sortDedup (policyConflicts authored BTreeMap.empty)).head? with
    | some modType => .err (.policyConflict modType)
    | none => pure authored

def grantedTags (effects : List Effect) : Finset String :=
  (effects.flatMap fun effect ↦ effect.grants.getD []).toFinset

/-! ### The definition -/

def convertDefense (entry : ValidatedAbility) : Result CombatError AbilityDefense :=
  match entry.authored.defense with
  | .actorAttribute => .ok .actorAttribute
  | .targetStat stat => .ok (.targetStat stat)
  | .constant value => .ok (.constant value)
  | .actorStat stat => .ok (.actorStat stat)
  | .opposed _ bonusStats => (Result.expect entry.opposed).bind fun dice ↦
      .ok (.opposed dice bonusStats)

def flatDamage (ability : Ability) : List (Outcome × ℕ) :=
  ability.damage.map fun item ↦ (item.outcome, item.amount)

/-- The definition of one validated ability; real-time fields need a clock. -/
def convertAbility (hasClock : Bool) (entry : ValidatedAbility) :
    Result CombatError AbilityDefinition :=
  (convertDefense entry).bind fun defense ↦ .ok
    { ability := entry.id
      dice := entry.dice
      attributeName := entry.authored.attributeName
      defense := defense
      outcomeTable := entry.table
      damage := flatDamage entry.authored
      costs := entry.costs
      endsTurn := entry.authored.endsTurn
      effect := entry.authored.effect
      naturalDie := entry.authored.naturalDie
      requiresTarget := entry.authored.requiresTarget
      allowSelfTarget := entry.authored.allowSelfTarget
      recoveryTicks := if hasClock then entry.authored.recoveryTicks else none
      repeatsInRealTime := hasClock && entry.authored.repeatsInRealTime.getD false
      bonusStats := entry.authored.bonusStats.getD []
      damageDice := entry.damageDice }

def convertEffect (authored : Effect) : EffectDefinition where
  effect := authored.id
  aim := authored.aim
  modType := authored.modType
  policy := authored.policy
  modifiers := authored.modifiers
  durationRounds := authored.durationRounds
  grants := authored.grants.getD []

/-- The lifecycle rules one encounter runs under. -/
def lifecycleOf (encounter : Encounter) (ruleset : Ruleset) : Lifecycle where
  respawns := encounter.respawns = some true || ruleset.creaturePersistence = some .registered
  effectsOnExit := match ruleset.effectsOnExit with
    | none => .suspend
    | some .suspend => .suspend
    | some .strip => .strip
    | some .stripAtRelease => .stripAtRelease

/-- What the checks of a start produce. -/
structure Prepared where
  definition : CombatDefinition
  clock : Option EncounterClock
  granted : Finset String
  lifecycle : Lifecycle
  pending : List Pending

def readTemplates (ruleset : Ruleset) : Result CombatError (List PoolTemplate) :=
  Result.mapM (fun template : ActionPoolTemplate ↦ (convertRefresh template.refresh).bind
    fun refresh ↦ .ok ⟨template.id, template.max, refresh⟩) ruleset.pools

/-- The bounds and data-owned preconditions a start checks first. -/
def checkBounds (world : World) (spec : EncounterSpec) (mode : EncounterMode) :
    Result CombatError Unit := do
  Result.failIf (world.combat.isSome = true) .encounterActive
  Result.failIf (mode = .realTime ∧ spec.ruleset.roundTicks = none) .modeUnsupported
  Result.failIf (spec.encounter.participants.length > maxCombatants) .tooManyParticipants
  Result.failIf (spec.ruleset.stats.length > maxCombatStats) .tooManyStats
  Result.panicIf (spec.encounter.participants = [])
  Result.panicIf (spec.ruleset.abilities = [])
  Result.panicIf (spec.ruleset.roundTicks = some 0)
  Result.panicIf (spec.ruleset.roundTicks.isSome = true ∧ (spec.ruleset.abilities.any fun id ↦
    (spec.abilities.get? id).bind Ability.recoveryTicks = some 0) = true)

/-- Every check of a start up to the participants' records, and the definition they build. -/
def prepare (world : World) (spec : EncounterSpec) (mode : EncounterMode) :
    Result CombatError Prepared := do
  checkBounds world spec mode
  let ruleset := spec.ruleset
  let derived ← Result.foldlM (convertDerived (intNamesOf ruleset)) [] ruleset.stats
  let attributeNames := attributeNamesOf ruleset
  let isUsable := usable attributeNames derived
  let clock : Option EncounterClock := ruleset.roundTicks.map fun roundTicks ↦ ⟨roundTicks, 0⟩
  let placements ← resolvePlacements spec
  checkArea world placements
  let pending ← Result.mapM (readPending spec) placements
  let initiative ← readInitiative ruleset isUsable
  probeAll world ruleset.healthStat attributeNames derived pending
  Result.panicIf (ruleset.pools = [])
  let templates ← readTemplates ruleset
  let primary ← Result.expect templates.head?
  let validated ← Result.mapM (validateAbility spec isUsable templates primary) ruleset.abilities
  let effects ← checkEffects spec isUsable (carriesBonusStats validated)
    (referencedEffects validated)
  let granted := grantedTags effects
  Result.forM (fun member : Pending ↦
    Result.failIf ((granted ∪ member.tags.toFinset).card > maxTags) .tooManyTags) pending
  let abilities ← Result.mapM (convertAbility clock.isSome) validated
  let first ← Result.expect validated.head?
  pure
    { definition :=
        { encounter := spec.encounter.id
          ruleset := ruleset.id
          ability := first.id
          dice := first.dice
          attributeName := first.authored.attributeName
          healthStat := ruleset.healthStat
          attributeNames := attributeNames
          damage := flatDamage first.authored
          cost := first.authored.cost
          requiresTarget := first.authored.requiresTarget
          allowSelfTarget := first.authored.allowSelfTarget
          outcomeTable := first.table
          poolId := primary.id
          poolMax := primary.max
          poolRefresh := primary.refresh
          abilities := abilities.insertionSort fun first second ↦ first.ability ≤ second.ability
          pools := templates
          effects := (effects.map convertEffect).insertionSort fun first second ↦
            first.effect ≤ second.effect
          derived := derived
          initiative := initiative }
      clock := clock
      granted := granted
      lifecycle := lifecycleOf spec.encounter ruleset
      pending := pending }

/-! ### Entry -/

/-- Where one participant's combatant comes from. -/
inductive Source
  | spawn
  | enter (entity : EntityId)
  | skip
deriving DecidableEq

/-- `derived_failure`: the first derived stat of a record that fails to evaluate. -/
def derivedFailure (world : World) (definition : CombatDefinition) (health : ℕ)
    (attributes : List (String × ℤ)) : Result CombatError (Option String) :=
  if definition.derived = [] then .ok none
  else (statPipeline world definition.healthStat definition.attributeNames
      definition.derived).bind fun pipeline ↦
    (baseBlock definition.healthStat health attributes pipeline.2).bind fun block ↦
      probeFailure pipeline.1 ⟨probeId, block.1, ∅, []⟩ block.2 definition.derived

def poolsAgree (pools : List ResourcePool) (templates : List PoolTemplate) : Bool :=
  pools.length = templates.length && (pools.zip templates).all fun pair ↦
    pair.1.id = pair.2.id && pair.1.max = pair.2.max && pair.1.refreshTrigger = pair.2.refresh

/-- `check_entry`: the entry checks of one alive record. -/
def checkEntry (world : World) (definition : CombatDefinition) (granted : Finset String)
    (entity : EntityId) (record : CreatureState) : Result CombatError Unit := do
  Result.failIf (record.ruleset ≠ definition.ruleset ∨
    record.attributes.map Prod.fst ≠ definition.attributeNames ∨
    poolsAgree record.pools definition.pools = false) (.rulesetMismatch entity)
  let failed ← derivedFailure world definition record.health record.attributes
  match failed with
  | some stat => .err (.invalidStatValue stat)
  | none => Result.failIf ((granted ∪ record.tags.toFinset).card > maxTags) .tooManyTags

def sourceOf (world : World) (prepared : Prepared) (member : Pending) :
    Result CombatError (Pending × Source) :=
  if prepared.lifecycle.respawns then .ok (member, .spawn)
  else match world.creatures.entries.find? fun entry ↦ entry.2.placement = member.placement with
    | none => .ok (member, .spawn)
    | some (entity, record) =>
      if record.dead then .ok (member, .skip)
      else (checkEntry world prepared.definition prepared.granted entity record).bind fun _ ↦
        .ok ({ member with health := record.health, attributes := record.attributes },
          .enter entity)

def rollMember (pipeline : ModifierPipeline) (healthStat : String) (rule : InitiativeRule)
    (state : (Interners × DeterministicRng) × List (Pending × Source)) (entry : Pending × Source) :
    Result CombatError ((Interners × DeterministicRng) × List (Pending × Source)) :=
  if entry.2 = .skip then .ok (state.1, state.2 ++ [entry])
  else do
    let block ← baseBlock healthStat entry.1.health entry.1.attributes state.1.1
    let bonus ← Result.foldlM (fun bonus name ↦ do
      let value ← queryInt pipeline probeId name block.2 ⟨probeId, block.1, ∅, []⟩
      let value ← Result.expect value
      pure (i32SaturatingAdd bonus value)) 0 rule.bonusStats
    let evaluated ← Result.expectOk (rule.dice.evaluate state.1.2 combatRollStream)
    let rolled ← Result.expect evaluated
    let initiative := i32SaturatingAdd (i32SaturatingAdd rolled.1.total bonus) entry.1.initiative
    pure ((block.2, rolled.2), state.2 ++ [({ entry.1 with initiative := initiative }, entry.2)])

/-- Rolls every participant's key in authored order. -/
def rollInitiative (world : World) (definition : CombatDefinition)
    (sources : List (Pending × Source)) : Result CombatError (World × List (Pending × Source)) :=
  match definition.initiative with
  | none => .ok (world, sources)
  | some rule => do
    let pipeline ← statPipeline world definition.healthStat definition.attributeNames
      definition.derived
    let rolled ← Result.foldlM (rollMember pipeline.1 definition.healthStat rule)
      ((pipeline.2, world.rng), []) sources
    pure ({ world with rng := rolled.1.2 }, rolled.2)

/-- `enter_combatant`: the combatant one record becomes. -/
def enterCombatant (definition : CombatDefinition) (record : CreatureState) (round : ℕ)
    (initiative : ℤ) : Result CombatError Combatant :=
  match record.pools with
  | [] => .panic
  | actionPool :: extraPools => .ok
      { placement := record.placement
        initiative := initiative
        attributes := record.attributes
        health := record.health
        maxHealth := record.maxHealth
        dead := false
        actionPool := actionPool
        extraPools := extraPools
        attached := (record.suspended.filter fun entry ↦
          (effectEntry definition entry.effect).isSome).map fun entry ↦
            ⟨entry.effect, saturatingAdd u32Max round entry.remainingRounds⟩
        order := none
        tags := record.tags
        fixed := record.fixed
        entered := true }

def fullPool (id : Ulid) (max : ℕ) (refresh : RefreshTrigger) : Result CombatError ResourcePool :=
  Result.expectOk (ResourcePool.new id max max refresh)

/-- The combatant of a participant that spawns. -/
def freshCombatant (definition : CombatDefinition) (member : Pending) :
    Result CombatError Combatant := do
  let extraPools ← Result.mapM (fun template : PoolTemplate ↦
    fullPool template.id template.max template.refresh) definition.pools.tail
  let actionPool ← fullPool definition.poolId definition.poolMax definition.poolRefresh
  pure
    { placement := member.placement
      initiative := member.initiative
      attributes := member.attributes
      health := member.health
      maxHealth := member.health
      dead := false
      actionPool := actionPool
      extraPools := extraPools
      attached := []
      order := none
      tags := member.tags
      fixed := member.fixed
      entered := false }

def initialKey (mode : EncounterMode) (initiative : ℤ) : ℤ :=
  match mode with
  | .turnBased => initiative
  | .realTime => 0

def publish (mode : EncounterMode) (world : World) (id : EntityId) (combatant : Combatant) : World :=
  { world with
    combatants := world.combatants.insert id combatant
    timeline := world.timeline.insert (initialKey mode combatant.initiative) id }

def publishMember (mode : EncounterMode) (definition : CombatDefinition) (world : World)
    (entry : Pending × Source) : Result CombatError World :=
  match entry.2 with
  | .skip => .ok world
  | .enter entity => do
    let record ← Result.expect (world.creatures.get? entity)
    let entered ← enterCombatant definition record 0 entry.1.initiative
    pure (publish mode { world with creatures := world.creatures.shiftRemove entity } entity entered)
  | .spawn => do
    let spawned ← Result.expect (world.spawn {})
    let combatant ← freshCombatant definition entry.1
    pure (publish mode spawned.2 spawned.1 combatant)

def firstTurn (mode : EncounterMode) (world : World) : Result CombatError (Option EntityId × World) :=
  match mode with
  | .realTime => .ok (none, world)
  | .turnBased =>
    match world.timeline.head? with
    | none => .ok (none, world)
    | some head => (Result.expect (world.combatants.get? head)).bind fun _ ↦
        .ok (some head, world.modifyCombatant head fun state ↦ state.refresh .turnStart)

/-- `start_encounter_in_mode_tracked`: validates and publishes one encounter. -/
def startEncounterInModeTracked (world : World) (spec : EncounterSpec) (mode : EncounterMode) :
    Result CombatError (StartFacts × World) := do
  let prepared ← prepare world spec mode
  let sources ← Result.mapM (sourceOf world prepared) prepared.pending
  Result.failIf (sources.all fun entry ↦ entry.2 = .skip) .noEntrants
  let rolled ← rollInitiative world prepared.definition sources
  let published ← Result.foldlM (publishMember mode prepared.definition) rolled.1 rolled.2
  let tagged := { published with interners := (published.interners.internTag combatRollTag).2 }
  let first ← firstTurn mode tagged
  pure (⟨first.1.map fun actor ↦ (actor, 0)⟩, { first.2 with
    combat := some
      { definition := prepared.definition
        round := 0
        active := first.1
        mode := mode
        clock := prepared.clock
        pendingMode := none
        lifecycle := prepared.lifecycle } })

/-! ### Registration -/

def placementHeld (world : World) (placement : Ulid) : Bool :=
  (world.creatures.values.any fun record ↦ record.placement = placement) ||
    world.combatants.values.any fun combatant ↦ combatant.placement = placement

def registeredPool (template : ActionPoolTemplate) : Result CombatError ResourcePool :=
  (convertRefresh template.refresh).bind fun refresh ↦ fullPool template.id template.max refresh

/-- `register_creature`: instantiates one placement outside any encounter. -/
def registerCreature (world : World) (spec : CreatureSpec) :
    Result CombatError (EntityId × World) := do
  Result.failIf (spec.ruleset.stats.length > maxCombatStats) .tooManyStats
  match world.area with
  | some expected => Result.failIf (expected ≠ spec.area) (.areaMismatch expected spec.area)
  | none => pure ()
  Result.failIf (spec.creature.id ≠ spec.placement.prefabId)
    (.missingCreature spec.placement.prefabId)
  let stats ← readCreatureStats spec.ruleset spec.creature
  Result.failIf (placementHeld world spec.placement.id = true) (.placementInUse spec.placement.id)
  Result.failIf (stats.tags.length > maxTags) .tooManyTags
  Result.panicIf (spec.ruleset.pools = [])
  let pools ← Result.mapM registeredPool spec.ruleset.pools
  let spawned ← Result.expect (world.spawn {})
  pure (spawned.1, { spawned.2 with
    creatures := spawned.2.creatures.insert spawned.1
      { placement := spec.placement.id
        ruleset := spec.ruleset.id
        attributes := stats.attributes
        fixed := stats.fixed
        health := stats.health
        maxHealth := stats.health
        pools := pools
        suspended := []
        tags := stats.tags } })

end Crpg.Sim
