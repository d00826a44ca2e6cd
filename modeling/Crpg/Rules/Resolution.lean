import Crpg.Rules.Modifier

/-!
# Outcome tables and resolution

`crpg-rules/src/resolution.rs`. An outcome table partitions the margins by sorted lower bounds and
applies at most one natural-face rule. `resolve` checks a request and the contexts of its
participants, evaluates the defence, draws the dice of the actor and then of the opponent on a
staged copy of the generator, folds the roll modifiers, and returns the generator with the result:
the staged copy when somebody rolled. An error returns no generator, so the caller keeps its own.
-/

set_option autoImplicit false

namespace Crpg.Rules

open Crpg.Core Crpg.Lib

inductive Outcome
  | criticalSuccess
  | success
  | failure
  | criticalFailure
  | custom (label : UInt8)
deriving DecidableEq

structure OutcomeBand where
  minMargin : ℤ
  outcome : Outcome
deriving DecidableEq

/-- What a matching natural-face rule does. -/
inductive NaturalEffect
  | shift (steps : ℤ)
  | override (outcome : Outcome)
deriving DecidableEq

structure NaturalRule where
  face : ℕ
  effect : NaturalEffect
deriving DecidableEq

/-- `i64::MIN`. -/
def i64Min : ℤ := -9223372036854775808

def ascending (previous : ℤ) : List OutcomeBand → Bool
  | [] => true
  | band :: rest => decide (previous < band.minMargin) && ascending band.minMargin rest

def bandsStart : List OutcomeBand → Bool
  | [] => false
  | first :: rest => first.minMargin = i64Min && ascending first.minMargin rest

structure OutcomeTable where
  id : Ulid
  bands : List OutcomeBand
  naturalRules : List NaturalRule
  bands_start : bandsStart bands = true
  bands_le : bands.length ≤ maxOutcomeBands
  rules_le : naturalRules.length ≤ maxNaturalRules
  faces_in : ∀ rule ∈ naturalRules, 0 < rule.face ∧ rule.face ≤ maxDieSides
  faces_nodup : (naturalRules.map NaturalRule.face).Nodup
deriving DecidableEq

/-- The selected outcome for one margin and natural face. -/
structure OutcomeDecision where
  bandIndex : ℕ
  naturalRuleIndex : Option ℕ
  outcome : Outcome
deriving DecidableEq

namespace OutcomeTable

def bandPath (index : ℕ) : String := "/outcome_table/bands/" ++ toString index ++ "/min_margin"

def facePath (index : ℕ) : String := "/outcome_table/natural_rules/" ++ toString index ++ "/face"

/-- The first band after a bound that does not lie above its predecessor. -/
def bandFault (index : ℕ) (previous : ℤ) : List OutcomeBand → Option ℕ
  | [] => none
  | band :: rest =>
    if band.minMargin ≤ previous then some index else bandFault (index + 1) band.minMargin rest

/-- The first rule whose face is out of range or repeated. -/
def faceFault (index : ℕ) (seen : List ℕ) : List NaturalRule → Option ℕ
  | [] => none
  | rule :: rest =>
    if rule.face = 0 ∨ rule.face > maxDieSides ∨ rule.face ∈ seen then some index
    else faceFault (index + 1) (rule.face :: seen) rest

theorem ascending_of_bandFault {index : ℕ} {previous : ℤ} {bands : List OutcomeBand}
    (hnone : bandFault index previous bands = none) : ascending previous bands = true := by
  induction bands generalizing index previous with
  | nil => rfl
  | cons band rest ih =>
    unfold bandFault at hnone
    split_ifs at hnone with hle
    rw [ascending, ih hnone, Bool.and_true, decide_eq_true_eq]
    exact not_le.mp hle

theorem faces_of_faceFault {index : ℕ} {seen : List ℕ} {rules : List NaturalRule}
    (hnone : faceFault index seen rules = none) :
    (∀ rule ∈ rules, (0 < rule.face ∧ rule.face ≤ maxDieSides) ∧ rule.face ∉ seen) ∧
      (rules.map NaturalRule.face).Nodup := by
  induction rules generalizing index seen with
  | nil => simp
  | cons rule rest ih =>
    unfold faceFault at hnone
    split_ifs at hnone with hbad
    obtain ⟨hrest, hnodup⟩ := ih hnone
    rw [not_or, not_or] at hbad
    refine ⟨fun other hother ↦ ?_, ?_⟩
    · rcases List.mem_cons.mp hother with rfl | hother
      · exact ⟨⟨Nat.pos_of_ne_zero hbad.1, not_lt.mp hbad.2.1⟩, hbad.2.2⟩
      · exact ⟨(hrest other hother).1, fun h ↦ (hrest other hother).2 (List.mem_cons_of_mem _ h)⟩
    · rw [List.map_cons, List.nodup_cons]
      refine ⟨fun hmem ↦ ?_, hnodup⟩
      obtain ⟨other, hother, hface⟩ := List.mem_map.mp hmem
      exact (hrest other hother).2 (hface ▸ List.mem_cons_self ..)

/-- Builds a table after validating its authored data: the bands and then the rules. -/
def new (id : Ulid) (bands : List OutcomeBand) (naturalRules : List NaturalRule) :
    Except RulesError OutcomeTable :=
  match bands with
  | [] => .error (.at .invalidOutcomeTable "/outcome_table/bands")
  | first :: rest =>
    if hbands : (first :: rest).length > maxOutcomeBands then
      .error (.at .invalidOutcomeTable "/outcome_table/bands")
    else if hfirst : first.minMargin ≠ i64Min then .error (.at .invalidOutcomeTable (bandPath 0))
    else match hband : bandFault 1 first.minMargin rest with
      | some index => .error (.at .invalidOutcomeTable (bandPath index))
      | none =>
        if hrules : naturalRules.length > maxNaturalRules then
          .error (.at .invalidOutcomeTable "/outcome_table/natural_rules")
        else match hface : faceFault 0 [] naturalRules with
          | some index => .error (.at .invalidOutcomeTable (facePath index))
          | none => .ok
            { id := id
              bands := first :: rest
              naturalRules := naturalRules
              bands_start := by
                rw [bandsStart, ascending_of_bandFault hband, Bool.and_true, decide_eq_true_eq]
                exact not_not.mp hfirst
              bands_le := not_lt.mp hbands
              rules_le := not_lt.mp hrules
              faces_in := fun rule hrule ↦ ((faces_of_faceFault hface).1 rule hrule).1
              faces_nodup := (faces_of_faceFault hface).2 }

/-- The index of the last band in the leading run of bands at or below the margin. -/
def bandIndexFrom (margin : ℤ) (index current : ℕ) : List OutcomeBand → ℕ
  | [] => current
  | band :: rest =>
    if band.minMargin ≤ margin then bandIndexFrom margin (index + 1) index rest else current

def outcomeAt (table : OutcomeTable) (index : ℕ) : Outcome :=
  ((table.bands[index]?).map OutcomeBand.outcome).getD .failure

def ruled (table : OutcomeTable) (bandIndex : ℕ) (ruleIndex : Option ℕ) : Outcome :=
  match ruleIndex.bind fun index ↦ table.naturalRules[index]? with
  | none => table.outcomeAt bandIndex
  | some ⟨_, .override outcome⟩ => outcome
  | some ⟨_, .shift steps⟩ =>
    table.outcomeAt (max 0 (min ((table.bands.length : ℤ) - 1) ((bandIndex : ℤ) + steps))).toNat

/-- Selects the outcome for a margin with an optional raw natural face. -/
def evaluate (table : OutcomeTable) (margin : ℤ) (natural : Option ℕ) : OutcomeDecision :=
  let bandIndex := bandIndexFrom margin 0 0 table.bands
  let ruleIndex := natural.bind fun face ↦
    table.naturalRules.findIdx? fun rule ↦ rule.face = face
  ⟨bandIndex, ruleIndex, table.ruled bandIndex ruleIndex⟩

end OutcomeTable

/-! ### Requests -/

/-- What dice, if any, one side rolls. -/
inductive RollSpec
  | none
  | dice (expr : DiceExpr)
deriving DecidableEq

/-- One side's roll. -/
structure RollRequest where
  actor : EntityId
  roll : RollSpec
  bonusTarget : TagId
  naturalDie : Option ℕ
  stream : String
  tags : TagSet
deriving DecidableEq

/-- What the actor's total is measured against. -/
inductive Against
  | dc (value : ℤ) (owner : EntityId) (modifierTarget : TagId)
  | stat (entity : EntityId) (stat : StatId) (modifierTarget : TagId)
  | opposed (request : RollRequest)
deriving DecidableEq

structure ResolutionRequest where
  roll : RollRequest
  target : Option EntityId
  against : Against
  outcomeTable : Ulid

/-- The views one resolution evaluates against. -/
structure ResolutionContext where
  pipeline : ModifierPipeline
  entities : BTreeMap EntityId QueryContext
  outcomeTable : OutcomeTable

/-- One side's evaluated roll. -/
structure ResolvedRoll where
  roll : Option DiceRoll
  natural : Option ℕ
  total : ℤ
  modifiers : NumericModifierBreakdown

/-- How the defence side was evaluated. -/
inductive AgainstBreakdown
  | dc (breakdown : NumericModifierBreakdown)
  | stat (stat : ModifierBreakdown) (dc : NumericModifierBreakdown)
  | opposed (roll : ResolvedRoll)

structure ResolutionResult where
  actor : ResolvedRoll
  against : AgainstBreakdown
  againstValue : ℤ
  margin : ℤ
  decision : OutcomeDecision

/-- Prefixes a forwarded failure with its participant path. -/
def prefixed (path : String) (error : RulesError) : RulesError :=
  { error with location := path ++ error.location }

def checkRollShape (roll : RollRequest) (path : String) : Result RulesError Unit :=
  match roll.roll with
  | .none =>
    (Result.failIf (roll.naturalDie.isSome = true)
      (RulesError.at .invalidResolution (path ++ "/roll/natural_die"))).bind fun _ ↦
    Result.failIf (roll.stream.isEmpty = false)
      (RulesError.at .invalidResolution (path ++ "/roll/stream"))
  | .dice expr =>
    match checkStream roll.stream with
    | .error error => .err { error with location := path ++ "/roll/stream" }
    | .ok () => Result.failIf (roll.naturalDie.any (fun selector ↦ expr.count ≤ selector) = true)
        (RulesError.at .invalidResolution (path ++ "/roll/natural_die"))

def unionTags (entityTags requestTags : TagSet) (path : String) : Result RulesError TagSet :=
  let union := entityTags ∪ requestTags
  if union.card > maxTags then .err (.at .limitExceeded (path ++ "/roll/tags")) else .ok union

/-- The entity on the defending side. -/
def Against.defender : Against → EntityId
  | .dc _ owner _ => owner
  | .stat entity _ _ => entity
  | .opposed request => request.actor

/-- The participants in ascending order, each with its path. -/
def participantsOf (request : ResolutionRequest) : List (EntityId × String) :=
  let actor := (request.roll.actor, "/resolution/actor")
  let defender := (request.against.defender, "/resolution/against")
  if defender.1 = actor.1 then [actor]
  else if actor.1 ≤ defender.1 then [actor, defender] else [defender, actor]

def checkParticipant (context : ResolutionContext) (participant : EntityId × String) :
    Result RulesError Unit :=
  (Result.expect (context.entities.get? participant.1)).bind fun view ↦
    (Result.failIf (view.entity ≠ participant.1)
      (RulesError.at .entityMismatch participant.2)).bind fun _ ↦
    (context.pipeline.checkContext view).mapErr (prefixed participant.2)

/-- The dice of one side on the staged generator: the trace, the natural face, the raw total and
whether anything was rolled. -/
def rollSide (request : RollRequest) (rng : DeterministicRng) (path : String) :
    Result RulesError ((Option DiceRoll × Option ℕ × ℤ) × DeterministicRng) :=
  match request.roll with
  | .none => .ok ((none, none, 0), rng)
  | .dice expr =>
    ((Result.ofExcept (expr.evaluate rng request.stream)).mapErr (prefixed path)).bind
      fun evaluated ↦ (Result.expect evaluated).bind fun rolled ↦
        match request.naturalDie with
        | none => .ok ((some rolled.1, none, rolled.1.total), rolled.2)
        | some selector => (Result.expect rolled.1.dice[selector]?).bind fun die ↦
            .ok ((some rolled.1, some die.value, rolled.1.total), rolled.2)

/-- Whether a side draws dice. -/
def RollSpec.rolls : RollSpec → Bool
  | .none => false
  | .dice _ => true

def resolveSide (context : ResolutionContext) (request : RollRequest) (view : QueryContext)
    (union : TagSet) (rng : DeterministicRng) (path : String) :
    Result RulesError (ResolvedRoll × DeterministicRng) :=
  (rollSide request rng (path ++ "/roll")).bind fun rolled ↦
    ((context.pipeline.queryNumeric request.actor (.roll request.bonusTarget) rolled.1.2.2
      ⟨request.actor, view.stats, union, view.modifiers⟩).mapErr (prefixed path)).bind fun folded ↦
        .ok (⟨rolled.1.1, rolled.1.2.1, folded.1, folded.2⟩, rolled.2)

/-- The defence of a side that does not roll, evaluated before any draw. -/
def preflight (context : ResolutionContext) (against : Against) :
    Result RulesError (Option (ℤ × AgainstBreakdown)) :=
  match against with
  | .dc value owner modifierTarget =>
    (Result.expect (context.entities.get? owner)).bind fun view ↦
    ((context.pipeline.queryNumeric owner (.dc modifierTarget) value view).mapErr
      (prefixed "/resolution/against")).bind fun folded ↦
        .ok (some (folded.1, .dc folded.2))
  | .stat entity stat modifierTarget =>
    (Result.expect (context.entities.get? entity)).bind fun view ↦
    ((context.pipeline.query entity stat view).mapErr (prefixed "/resolution/against")).bind
      fun queried ↦
        match queried.1 with
        | .int base =>
          ((context.pipeline.queryNumeric entity (.dc modifierTarget) base view).mapErr
            (prefixed "/resolution/against")).bind fun folded ↦
              .ok (some (folded.1, .stat queried.2 folded.2))
        | _ => .err (.at .typeMismatch "/resolution/against")
  | .opposed _ => .ok none

def opposedUnion (context : ResolutionContext) (against : Against) :
    Result RulesError (Option TagSet) :=
  match against with
  | .opposed request => (Result.expect (context.entities.get? request.actor)).bind fun view ↦
      (unionTags view.tags request.tags "/resolution/against").bind fun union ↦ .ok (some union)
  | _ => .ok none

/-- The defence value, its breakdown, the generator after it and whether this side rolled. -/
def resolveAgainst (context : ResolutionContext) (against : Against) (union : Option TagSet)
    (done : Option (ℤ × AgainstBreakdown)) (rng : DeterministicRng) :
    Result RulesError ((ℤ × AgainstBreakdown) × DeterministicRng × Bool) :=
  match against with
  | .opposed request =>
    (Result.expect (context.entities.get? request.actor)).bind fun view ↦
    (Result.expect union).bind fun union ↦
    (resolveSide context request view union rng "/resolution/against").bind fun side ↦
      .ok ((side.1.total, .opposed side.1), side.2, request.roll.rolls)
  | _ =>
    match done with
    | some done => .ok (done, rng, false)
    | none => .err (.at .invalidResolution "/resolution/against")

/-- The checks of a request before anything is evaluated. -/
def checkRequest (request : ResolutionRequest) (context : ResolutionContext) :
    Result RulesError Unit := do
  Result.failIf (context.outcomeTable.id ≠ request.outcomeTable)
    (RulesError.at .invalidResolution "/resolution/outcome_table")
  Result.failIf (context.entities.contains request.roll.actor = false)
    (RulesError.at .missingEntity "/resolution/actor")
  Result.failIf (request.target.any (fun target ↦ !context.entities.contains target) = true)
    (RulesError.at .missingEntity "/resolution/target")
  Result.failIf (context.entities.contains request.against.defender = false)
    (RulesError.at .missingEntity "/resolution/against")
  checkRollShape request.roll "/resolution/actor"
  match request.against with
  | .opposed opposed => checkRollShape opposed "/resolution/against"
  | _ => pure ()
  Result.forM (checkParticipant context) (participantsOf request)

/-- Resolves one request with transactional randomness: the result and the generator after it. -/
def resolve (request : ResolutionRequest) (context : ResolutionContext) (rng : DeterministicRng) :
    Result RulesError (ResolutionResult × DeterministicRng) := do
  checkRequest request context
  let view ← Result.expect (context.entities.get? request.roll.actor)
  let actorUnion ← unionTags view.tags request.roll.tags "/resolution/actor"
  let union ← opposedUnion context request.against
  let done ← preflight context request.against
  let actor ← resolveSide context request.roll view actorUnion rng "/resolution/actor"
  let against ← resolveAgainst context request.against union done actor.2
  let margin := actor.1.total - against.1.1
  let rolled := request.roll.roll.rolls || against.2.2
  pure (⟨actor.1, against.1.2, against.1.1, margin,
      context.outcomeTable.evaluate margin actor.1.natural⟩,
    if rolled then against.2.1 else rng)

end Crpg.Rules
