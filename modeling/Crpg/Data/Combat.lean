import Crpg.Rules.Resolution
import Crpg.Rules.Resource

/-!
# Authored combat documents

The fields of `crpg-data`'s rulesets, abilities, outcome tables, effects, encounters, placements and
creatures that the simulation reads. Slugs, names, notes and the other presentation fields are left
out. The wire enums of outcomes, natural effects, stacking policies and refresh triggers have the
constructors of their runtime counterparts and share their types here, so `map_outcome` and
`map_policy` are identities.
-/

set_option autoImplicit false

namespace Crpg.Data

open Crpg.Core Crpg.Lib Crpg.Rules

inductive StatKindWire
  | int
  | fixed
  | bool
  | enum (enumId : String) (variants : List String)
  | tags
  | dice
deriving DecidableEq

/-- A literal of a derived formula. -/
inductive StatValueWire
  | int (value : ℤ)
  | fixed (value : Fx16)
  | bool (value : Bool)
  | enum (enumId variant : String)
  | tags (names : List String)
  | dice (text : String)
deriving DecidableEq

inductive ExprWire
  | literal (value : StatValueWire)
  | stat (name : String)
  | binary (op : BinaryOp) (left right : ExprWire)
deriving DecidableEq

/-- One stat declaration of a ruleset. -/
structure StatDecl where
  name : String
  kind : StatKindWire
  derived : Option ExprWire
deriving DecidableEq

structure ActionPoolTemplate where
  id : Ulid
  max : ℕ
  refresh : RefreshTrigger
deriving DecidableEq

/-- The initiative rule of a ruleset. -/
structure InitiativeWire where
  dice : String
  bonusStats : List String
deriving DecidableEq

/-- How creatures persist across encounters. -/
inductive CreaturePersistenceWire
  | survivors
  | registered
deriving DecidableEq

inductive EffectsOnExitWire
  | suspend
  | strip
  | stripAtRelease
deriving DecidableEq

structure Ruleset where
  id : Ulid
  stats : List StatDecl
  healthStat : String
  attributes : List String
  pools : List ActionPoolTemplate
  abilities : List Ulid
  roundTicks : Option ℕ
  initiative : Option InitiativeWire
  creaturePersistence : Option CreaturePersistenceWire
  effectsOnExit : Option EffectsOnExitWire
deriving DecidableEq

/-- How an ability selects its defense value. -/
inductive DefenseWire
  | actorAttribute
  | targetStat (stat : String)
  | constant (value : ℤ)
  | actorStat (stat : String)
  | opposed (dice : String) (bonusStats : List String)
deriving DecidableEq

structure AbilityCost where
  pool : Ulid
  amount : ℕ
deriving DecidableEq

structure DamageEntry where
  outcome : Outcome
  amount : ℕ
  dice : Option String
deriving DecidableEq

structure Ability where
  id : Ulid
  dice : String
  attributeName : String
  outcomeTable : Ulid
  damage : List DamageEntry
  cost : ℕ
  extraCosts : List AbilityCost
  endsTurn : Bool
  effect : Option Ulid
  defense : DefenseWire
  naturalDie : Option ℕ
  requiresTarget : Bool
  allowSelfTarget : Bool
  recoveryTicks : Option ℕ
  repeatsInRealTime : Option Bool
  bonusStats : Option (List String)
deriving DecidableEq

structure OutcomeTableDoc where
  id : Ulid
  bands : List OutcomeBand
  naturalRules : List NaturalRule
deriving DecidableEq

/-- Who an effect's modifiers apply to. -/
inductive EffectAim
  | slf
  | target
deriving DecidableEq

/-- Which fold an effect modifier contributes to. -/
inductive EffectTarget
  | roll
  | dc
  | stat (stat : String)
deriving DecidableEq

/-- How an effect modifier combines with its base. -/
inductive EffectOp
  | add
  | set
deriving DecidableEq

structure EffectModifier where
  id : Ulid
  target : EffectTarget
  op : EffectOp
  value : ℤ
  priority : ℤ
  name : Option String
deriving DecidableEq

structure Effect where
  id : Ulid
  aim : EffectAim
  modType : String
  policy : StackingPolicy
  modifiers : List EffectModifier
  durationRounds : ℕ
  grants : Option (List String)
deriving DecidableEq

structure EncounterParticipant where
  placement : Ulid
  initiative : ℤ
deriving DecidableEq

structure Encounter where
  id : Ulid
  participants : List EncounterParticipant
  respawns : Option Bool
deriving DecidableEq

/-- One placed creature. -/
structure Placement where
  id : Ulid
  prefabId : Ulid
deriving DecidableEq

structure Creature where
  id : Ulid
  stats : BTreeMap String Fx16
  tags : List String
deriving DecidableEq

end Crpg.Data
