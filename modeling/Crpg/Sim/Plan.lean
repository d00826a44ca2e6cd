import Crpg.Sim.World

/-!
# Planning one action

The part of `crpg-sim/src/combat.rs` between a combat definition and the rules kernel: the stat
definitions and base blocks of one operation, the modifiers of the attached effects, the synthetic
bonus modifiers, and `actionPlan`, which validation and execution share. Every handle comes from a
scratch interner, threaded explicitly, so none reaches the world.
-/

set_option autoImplicit false

namespace Crpg.Sim

open Crpg.Core Crpg.Lib Crpg.Rules Crpg.Data

/-! ### Definitions and base values -/

/-- The kernel expression of one formula. -/
def formulaExpr : IntFormula → Interners → Expr × Interners
  | .literal value, scratch => (.literal (.int value), scratch)
  | .stat name, scratch => (.stat (scratch.internStat name).1, (scratch.internStat name).2)
  | .binary op left right, scratch =>
    let first := formulaExpr left scratch
    let second := formulaExpr right first.2
    (.binary op first.1 second.1, second.2)

def internStats : List String → Interners → List StatId × Interners
  | [], scratch => ([], scratch)
  | name :: rest, scratch =>
    let interned := scratch.internStat name
    let others := internStats rest interned.2
    (interned.1 :: others.1, others.2)

def derivedDefinitions : List (DerivedStat × StatId) → Interners → List StatDefinition × Interners
  | [], scratch => ([], scratch)
  | (stat, id) :: rest, scratch =>
    let expr := formulaExpr stat.formula scratch
    let others := derivedDefinitions rest expr.2
    (⟨id, .int, some expr.1⟩ :: others.1, others.2)

/-- `int_definitions`: health and each attribute as plain integers, then each derived stat with its
formula, with handles issued in that order. -/
def intDefinitions (healthStat : String) (attributeNames : List String)
    (derived : List DerivedStat) (scratch : Interners) : List StatDefinition × Interners :=
  let health := scratch.internStat healthStat
  let attributes := internStats attributeNames health.2
  let ids := internStats (derived.map DerivedStat.name) attributes.2
  let formulas := derivedDefinitions (derived.zip ids.1) ids.2
  ((health.1 :: attributes.1).map (fun id ↦ ⟨id, .int, none⟩) ++ formulas.1, formulas.2)

/-- Inserts one base value, with the source's `expect`. -/
def insertBase (state : StatBlock × Interners) (entry : String × ℤ) :
    Result CombatError (StatBlock × Interners) :=
  let interned := state.2.internStat entry.1
  (Result.expectOk (StatBlock.insertChecked state.1 interned.1 (.int entry.2))).bind fun block ↦
    .ok (block, interned.2)

/-- `base_block`: the current health and the stored value of every attribute. -/
def baseBlock (healthStat : String) (health : ℕ) (attributes : List (String × ℤ))
    (scratch : Interners) : Result CombatError (StatBlock × Interners) :=
  Result.foldlM insertBase (IndexMap.empty, scratch)
    ((healthStat, min (health : ℤ) i32Max) :: attributes)

/-- `query_int`: the modified value of one named stat, or `none` when the query fails. -/
def queryInt (pipeline : ModifierPipeline) (entity : EntityId) (name : String)
    (scratch : Interners) (context : QueryContext) : Result CombatError (Option ℤ) :=
  match scratch.stat name with
  | none => .ok none
  | some stat =>
    match pipeline.query entity stat context with
    | .ok (.int value, _) => .ok (some value)
    | .ok _ => .ok none
    | .err _ => .ok none
    | .panic => .panic

/-! ### Views -/

/-- `rebuild_modifier`: the kernel modifier of one persisted entry. -/
def rebuildModifier (effect : Ulid) (modType : String) (entry : EffectModifier) (tag : TagId)
    (scratch : Interners) : Modifier × Interners :=
  let target : ModifierTarget × Interners := match entry.target with
    | .roll => (.roll tag, scratch)
    | .dc => (.dc tag, scratch)
    | .stat stat => (.stat (scratch.internStat stat).1, (scratch.internStat stat).2)
  let op : ModOp := match entry.op with
    | .add => .add (.int entry.value)
    | .set => .set (.int entry.value)
  (⟨entry.id, ⟨effectSourceKind, effect⟩, target.1, op, modType, entry.name, none,
    entry.priority⟩, target.2)

/-- The numeric folds a view carries besides stat modifiers. -/
structure Folds where
  roll : Bool
  dc : Bool

/-- Whether a view carries a modifier. -/
def Folds.wants (folds : Folds) : EffectTarget → Bool
  | .roll => folds.roll
  | .dc => folds.dc
  | .stat _ => true

/-- The definitions of the unexpired attachments of a combatant, in attachment order. -/
def unexpired (definition : CombatDefinition) (combatant : Combatant) (round : ℕ) :
    List EffectDefinition :=
  (combatant.attached.filter fun attached ↦ round < attached.expiresRound).filterMap
    fun attached ↦ effectEntry definition attached.effect

def rebuildAll (tag : TagId) :
    List (EffectDefinition × EffectModifier) → Interners → List Modifier × Interners
  | [], scratch => ([], scratch)
  | (entry, modifier) :: rest, scratch =>
    let built := rebuildModifier entry.effect entry.modType modifier tag scratch
    let others := rebuildAll tag rest built.2
    (built.1 :: others.1, others.2)

/-- `view_modifiers`: a combatant's unexpired modifiers of the wanted kinds, in attachment order and
then authored order. -/
def viewModifiers (definition : CombatDefinition) (combatant : Combatant) (round : ℕ) (tag : TagId)
    (scratch : Interners) (folds : Folds) : List Modifier × Interners :=
  rebuildAll tag ((unexpired definition combatant round).flatMap fun entry ↦
    (entry.modifiers.filter fun modifier ↦ folds.wants modifier.target).map fun modifier ↦
      (entry, modifier)) scratch

def internTags : List String → TagSet × Interners → TagSet × Interners
  | [], state => state
  | name :: rest, state =>
    let interned := state.2.internTag name
    internTags rest (insert interned.1 state.1, interned.2)

/-- `combatant_tags`: a combatant's own tags and the grants of its unexpired attachments. -/
def combatantTags (definition : CombatDefinition) (combatant : Combatant) (round : ℕ)
    (scratch : Interners) : TagSet × Interners :=
  internTags (combatant.tags ++
    (unexpired definition combatant round).flatMap EffectDefinition.grants) (∅, scratch)

/-- The inner loop: the first number from `next` on that no identity in `used` has. -/
def freshFrom (increment : ℕ → Option ℕ) (used : Finset Ulid) : ℕ → ℕ → Option ℕ
  | 0, _ => none
  | fuel + 1, next =>
    if Fin.ofNat _ next ∈ used then (increment next).bind (freshFrom increment used fuel)
    else some next

def bonusModifier (ability : Ulid) (tag : TagId) (value : ℤ) (id : Ulid) : Modifier :=
  ⟨id, ⟨bonusSourceKind, ability⟩, .roll tag, .add (.int value), combatBonusModType, none, none, 0⟩

/-- The outer loop, over the increment of its counter. -/
def bonusFrom (increment : ℕ → Option ℕ) (ability : Ulid) (tag : TagId) (used : Finset Ulid) :
    List ℤ → ℕ → Option (List Modifier)
  | [], _ => some []
  | value :: rest, next => do
    let fresh ← freshFrom increment used (used.card + 1) next
    let after ← increment fresh
    let others ← bonusFrom increment ability tag used rest after
    pure (bonusModifier ability tag value (Fin.ofNat _ fresh) :: others)

/-- `bonus_modifiers`: one synthetic roll modifier per value, the k-th with the k-th smallest
identity from one that the view does not use. -/
def bonusModifiers (ability : Ulid) (values : List ℤ) (tag : TagId) (view : List Modifier) :
    Option (List Modifier) :=
  bonusFrom (fun next ↦ some (next + 1)) ability tag (view.map Modifier.id).toFinset values 1

/-! ### The plan -/

/-- The pipeline, views and defence one action resolves with. -/
structure ActionPlan where
  pipeline : ModifierPipeline
  rollTag : TagId
  actorStats : StatBlock
  targetStats : StatBlock
  actorTags : TagSet
  targetTags : TagSet
  actorMods : List Modifier
  targetMods : List Modifier
  against : Against

def AbilityDefense.opposingBonus : AbilityDefense → List String
  | .opposed _ bonusStats => bonusStats
  | _ => []

def actionPolicies (definition : CombatDefinition) (entry : AbilityDefinition) :
    BTreeMap String StackingPolicy :=
  let policies := definition.effects.foldl (fun policies effect ↦
    policies.insert effect.modType effect.policy) BTreeMap.empty
  if entry.bonusStats ≠ [] ∨ entry.defense.opposingBonus ≠ [] then
    policies.insert combatBonusModType .stackAll
  else policies

/-- Queries one stat, failing with `StatEvaluation`. -/
def planQuery (pipeline : ModifierPipeline) (scratch : Interners) (context : QueryContext)
    (name : String) : Result CombatError ℤ :=
  (queryInt pipeline context.entity name scratch context).bind fun value ↦
    Result.okOr (.statEvaluation name) value

/-- The defence of one action, after the query of its stat. -/
def planAgainst (pipeline : ModifierPipeline) (scratch : Interners) (entry : AbilityDefinition)
    (actorContext targetContext : QueryContext) (rollTag : TagId) : Result CombatError Against :=
  match entry.defense with
  | .actorAttribute =>
    (planQuery pipeline scratch actorContext entry.attributeName).bind fun value ↦
      .ok (.dc value targetContext.entity rollTag)
  | .targetStat stat =>
    (planQuery pipeline scratch targetContext stat).bind fun _ ↦
      (Result.expect (scratch.stat stat)).bind fun id ↦
        .ok (.stat targetContext.entity id rollTag)
  | .constant value => .ok (.dc value targetContext.entity rollTag)
  | .actorStat stat =>
    (planQuery pipeline scratch actorContext stat).bind fun _ ↦
      (Result.expect (scratch.stat stat)).bind fun id ↦
        .ok (.stat actorContext.entity id rollTag)
  | .opposed dice _ => .ok (.opposed
      { actor := targetContext.entity
        roll := .dice dice
        bonusTarget := rollTag
        naturalDie := none
        stream := combatRollStream
        tags := ∅ })

/-- `action_plan`: builds one action's plan, querying the defence-side stat, the actor's bonus stats
and then the opposing bonus stats. -/
def actionPlan (world : World) (scratch : Interners) (entry : AbilityDefinition)
    (actor target : EntityId) : Result CombatError ActionPlan := do
  let combat ← Result.expect world.combat
  let definition := combat.definition
  let actorState ← Result.expect (world.combatants.get? actor)
  let targetState ← Result.expect (world.combatants.get? target)
  let rollTag ← Result.expect (world.interners.tag combatRollTag)
  let definitions := intDefinitions definition.healthStat definition.attributeNames
    definition.derived scratch
  let pipeline ← Result.unwrap
    (ModifierPipeline.new definitions.1 (actionPolicies definition entry))
  let actorBlock ← baseBlock definition.healthStat actorState.health actorState.attributes
    definitions.2
  let targetBlock ← baseBlock definition.healthStat targetState.health targetState.attributes
    actorBlock.2
  let selfTargeted : Bool := actor = target
  let actorTags := combatantTags definition actorState combat.round targetBlock.2
  let targetTags := if selfTargeted then actorTags
    else combatantTags definition targetState combat.round actorTags.2
  let actorView := viewModifiers definition actorState combat.round rollTag targetTags.2
    ⟨true, selfTargeted || match entry.defense with | .actorStat _ => true | _ => false⟩
  let targetView := if selfTargeted then ([], actorView.2)
    else viewModifiers definition targetState combat.round rollTag actorView.2
      ⟨match entry.defense with | .opposed _ _ => true | _ => false, true⟩
  let scratch := targetView.2
  let actorContext : QueryContext := ⟨actor, actorBlock.1, actorTags.1, actorView.1⟩
  let targetContext : QueryContext := if selfTargeted then { actorContext with entity := target }
    else ⟨target, targetBlock.1, targetTags.1, targetView.1⟩
  let against ← planAgainst pipeline scratch entry actorContext targetContext rollTag
  let bonusValues ← Result.mapM (planQuery pipeline scratch actorContext) entry.bonusStats
  let opposingValues ← Result.mapM (planQuery pipeline scratch targetContext)
    entry.defense.opposingBonus
  let synthetic ← Result.expect (bonusModifiers entry.ability bonusValues rollTag actorView.1)
  let actorMods := actorView.1 ++ synthetic
  let opposing ← Result.expect (bonusModifiers entry.ability opposingValues rollTag
    (if selfTargeted then actorMods else targetView.1))
  pure
    { pipeline := pipeline
      rollTag := rollTag
      actorStats := actorBlock.1
      targetStats := targetBlock.1
      actorTags := actorTags.1
      targetTags := targetTags.1
      actorMods := if selfTargeted then actorMods ++ opposing else actorMods
      targetMods := if selfTargeted then [] else targetView.1 ++ opposing
      against := against }

end Crpg.Sim
