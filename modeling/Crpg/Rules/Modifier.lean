import Crpg.Core.Ulid
import Crpg.Lib.Result
import Crpg.Rules.Derived

/-!
# Modifiers and the validated pipeline

`crpg-rules/src/modifier.rs`. `ModifierPipeline.new` validates definitions and policies once, phase
by phase in the source's order. A query checks its borrowed context, evaluates the dependency
closure of the stat with a memo of traces, and folds the retained modifiers of each stat onto its
base; `queryNumeric` folds roll and defence modifiers onto an integer the caller supplies.

Stacking selection is the same code in both folds, so it is one definition here (`selectTargeting`).
The evaluation recurses along the dependency graph with fuel, one unit more than there are
definitions; running out of it is a panic, as is a graph search without end.
-/

set_option autoImplicit false

namespace Crpg.Rules

open Crpg.Core Crpg.Lib

/-! ### Data -/

/-- The provenance of one modifier. -/
structure SourceRef where
  kind : String
  id : Ulid
deriving DecidableEq

inductive ModifierTarget
  | stat (id : StatId)
  | roll (tag : TagId)
  | dc (tag : TagId)
deriving DecidableEq

def ModifierTarget.isStat : ModifierTarget → Bool
  | .stat _ => true
  | _ => false

/-- One modifier operation. -/
inductive ModOp
  | set (value : StatValue)
  | add (value : StatValue)
  | multiply (factor : Fx16)
  | clamp (min max : StatValue)
deriving DecidableEq

inductive ConditionExpr
  | hasTag (tag : TagId)
  | not (child : ConditionExpr)
  | all (children : List ConditionExpr)
  | any (children : List ConditionExpr)

/-- One caller-owned modifier. -/
structure Modifier where
  id : Ulid
  source : SourceRef
  target : ModifierTarget
  op : ModOp
  modType : String
  name : Option String
  condition : Option ConditionExpr
  priority : ℤ

inductive StackingPolicy
  | stackAll
  | highestBonusWorstPenalty
  | highestPriorityPerName
deriving DecidableEq

/-- The borrowed per-entity view for one query. -/
structure QueryContext where
  entity : EntityId
  stats : StatBlock
  tags : TagSet
  modifiers : List Modifier

/-- Why one contribution did or did not change the running value. -/
inductive ContributionStatus
  | conditionFalse
  | zeroAdd
  | suppressed (winner : Ulid)
  | applied (before after : StatValue)
deriving DecidableEq

/-- One modifier plus its outcome for one trace. -/
structure Contribution where
  modifier : Modifier
  status : ContributionStatus

/-- The computation record of one evaluated stat. -/
structure StatTrace where
  base : StatValue
  value : StatValue
  dependencies : List StatId
  contributions : List Contribution

/-- The breakdown of one successful query. -/
structure ModifierBreakdown where
  entity : EntityId
  stat : StatId
  traces : BTreeMap StatId StatTrace

/-- The computation record of one evaluated integer target. -/
structure NumericModifierBreakdown where
  entity : EntityId
  target : ModifierTarget
  base : ℤ
  value : ℤ
  contributions : List Contribution

structure ModifierPipeline where
  definitions : BTreeMap StatId StatDefinition
  policies : BTreeMap String StackingPolicy
deriving DecidableEq

def phaseOf : ModOp → Fin 4
  | .set _ => 0
  | .add _ => 1
  | .multiply _ => 2
  | .clamp _ _ => 3

/-- The order of application: phase, then priority, then identity. -/
abbrev ModKey := Fin 4 ×ₗ ℤ ×ₗ Ulid

def Modifier.key (modifier : Modifier) : ModKey :=
  toLex (phaseOf modifier.op, toLex (modifier.priority, modifier.id))

/-- Escapes one path component. -/
def escapeSegment (name : String) : String := (name.replace "~" "~0").replace "/" "~1"

/-! ### Conditions -/

namespace ConditionExpr

mutual

/-- `measure_condition`: the node count and the tree depth, the root at depth one. -/
def measure : ConditionExpr → ℕ × ℕ
  | hasTag _ => (1, 1)
  | not child => (child.measure.1 + 1, child.measure.2 + 1)
  | all children => ((measureAll children).1 + 1, (measureAll children).2 + 1)
  | any children => ((measureAll children).1 + 1, (measureAll children).2 + 1)

/-- The node count and the greatest depth of a list of conditions. -/
def measureAll : List ConditionExpr → ℕ × ℕ
  | [] => (0, 0)
  | child :: rest =>
    (child.measure.1 + (measureAll rest).1, max child.measure.2 (measureAll rest).2)

end

mutual

/-- `eval_condition`: evaluates a condition against the tag set of the query. -/
def eval (tags : TagSet) : ConditionExpr → Bool
  | hasTag tag => tag ∈ tags
  | not child => !child.eval tags
  | all children => evalAll tags children
  | any children => evalAny tags children

/-- Whether every condition holds, left to right. -/
def evalAll (tags : TagSet) : List ConditionExpr → Bool
  | [] => true
  | child :: rest => child.eval tags && evalAll tags rest

/-- Whether some condition holds, left to right. -/
def evalAny (tags : TagSet) : List ConditionExpr → Bool
  | [] => false
  | child :: rest => child.eval tags || evalAny tags rest

end

end ConditionExpr

/-! ### Pipeline construction -/

def definitionPath (id : StatId) (suffix : String) : String :=
  "/definitions/" ++ toString id ++ suffix

abbrev DefinitionTable := BTreeMap StatId StatDefinition

/-- The enum domains of a definition set. -/
abbrev Domains := BTreeMap String (Finset String)

def checkLimits (definition : StatDefinition) : Result RulesError Unit :=
  let location := definitionPath definition.id "/derived"
  let expression : Result RulesError Unit := match definition.derived with
    | none => .ok ()
    | some expr =>
      (Result.failIf (expr.measure.1 > maxExprNodes ∨ expr.measure.2 > maxExprDepth)
        (RulesError.at .limitExceeded location)).bind fun _ ↦
      Result.failIf (expr.maxTagsLiteral > maxTags) (RulesError.at .limitExceeded location)
  expression.bind fun _ ↦
    match definition.kind with
    | .enum _ variants =>
      Result.failIf (variants = ∅ ∨ variants.card > maxEnumVariants)
        (RulesError.at .limitExceeded (definitionPath definition.id "/kind"))
    | _ => .ok ()

def totalNodes (ordered : List StatDefinition) : ℕ :=
  (ordered.map fun definition ↦ (definition.derived.map fun expr ↦ expr.measure.1).getD 0).sum

/-- The first element of a sorted list equal to its successor. -/
def firstDuplicate {α : Type*} [DecidableEq α] : List α → Option α
  | first :: second :: rest =>
    if first = second then some first else firstDuplicate (second :: rest)
  | _ => none

/-- One definition's enum shape against the domains declared before it. -/
def checkDomain (domains : Domains) (definition : StatDefinition) : Result RulesError Domains :=
  match definition.kind with
  | .enum enumId variants =>
    let location := definitionPath definition.id "/kind"
    (Result.failIf (enumId.isEmpty = true) (RulesError.at .invalidName location)).bind fun _ ↦
    (Result.failIf (∃ variant ∈ variants, variant.isEmpty = true)
      (RulesError.at .invalidName location)).bind fun _ ↦
    match domains.get? enumId with
    | some declared =>
      if declared ≠ variants then .err (.at .invalidEnum location) else .ok domains
    | none => .ok (domains.insert enumId variants)
  | _ => .ok domains

def checkReference (table : DefinitionTable) (domains : Domains) (location : String) :
    Expr → Result RulesError Unit
  | .stat id => Result.failIf (table.contains id = false) (RulesError.at .unknownStat location)
  | .literal (.enum entry) =>
    if entry.enumId.isEmpty ∨ entry.variant.isEmpty then .err (.at .invalidName location)
    else match domains.get? entry.enumId with
      | some variants =>
        if entry.variant ∈ variants then .ok () else .err (.at .invalidEnum location)
      | none => .err (.at .invalidEnum location)
  | _ => .ok ()

def onDerived (definition : StatDefinition) (check : String → Expr → Result RulesError Unit) :
    Result RulesError Unit :=
  match definition.derived with
  | none => .ok ()
  | some expr => check (definitionPath definition.id "/derived") expr

/-- `expr_kind`: the kind of one expression, which has the shape of a declared kind. -/
def exprKind (table : DefinitionTable) (domains : Domains) : Expr → Option StatKind
  | .literal (.int _) => some .int
  | .literal (.fixed _) => some .fixed
  | .literal (.bool _) => some .bool
  | .literal (.tags _) => some .tags
  | .literal (.dice _) => some .dice
  | .literal (.enum entry) => (domains.get? entry.enumId).map fun variants ↦
      .enum entry.enumId variants
  | .stat id => (table.get? id).map StatDefinition.kind
  | .binary _ left right =>
    match exprKind table domains left, exprKind table domains right with
    | some .int, some .int => some .int
    | some .fixed, some .fixed => some .fixed
    | _, _ => none

def checkOperands (table : DefinitionTable) (domains : Domains) (location : String) :
    Expr → Result RulesError Unit
  | .binary _ left right =>
    match exprKind table domains left, exprKind table domains right with
    | some .int, some .int => .ok ()
    | some .fixed, some .fixed => .ok ()
    | _, _ => .err (.at .typeMismatch location)
  | _ => .ok ()

/-- The type check of one derived expression against its declaration. -/
def checkTypes (table : DefinitionTable) (domains : Domains) (kind : StatKind) (location : String)
    (expr : Expr) : Result RulesError Unit :=
  (Result.forM (checkOperands table domains location) expr.preorder).bind fun _ ↦
    Result.failIf (exprKind table domains expr ≠ some kind) (RulesError.at .typeMismatch location)

/-- The dependency graph of a definition set. -/
def adjacencyOf (ordered : List StatDefinition) : Adjacency :=
  BTreeMap.ofList (ordered.map fun definition ↦
    (definition.id, (definition.derived.map Expr.sortedRefs).getD []))

def checkGraph (adjacency : Adjacency) : Result RulesError Unit :=
  (Result.expect (findCycle adjacency)).bind fun found ↦
    match found with
    | some cycle =>
      .err (.ofCycle (definitionPath (cycle.headD 0) "/derived") cycle)
    | none => (Result.expect (overDepthStat adjacency)).bind fun deep ↦
      match deep with
      | some stat => .err (.at .limitExceeded (definitionPath stat "/derived"))
      | none => .ok ()

namespace ModifierPipeline

def new (definitions : List StatDefinition) (policies : BTreeMap String StackingPolicy) :
    Result RulesError ModifierPipeline := do
  Result.failIf (definitions.length > maxStats) (RulesError.at .limitExceeded "/definitions")
  Result.failIf (policies.size > maxPolicies) (RulesError.at .limitExceeded "/policies")
  let ordered := definitions.insertionSort fun first second ↦ first.id ≤ second.id
  Result.forM checkLimits ordered
  Result.failIf (totalNodes ordered > maxTotalExprNodes)
    (RulesError.at .limitExceeded "/definitions")
  match firstDuplicate ((ordered.map StatDefinition.id).insertionSort (· ≤ ·)) with
  | some stat => .err (.at .duplicateStat (definitionPath stat ""))
  | none => do
    let table := BTreeMap.ofList (ordered.map fun definition ↦ (definition.id, definition))
    let domains ← Result.foldlM checkDomain BTreeMap.empty ordered
    Result.forM (fun name ↦ Result.failIf (name.isEmpty = true)
      (RulesError.at .invalidName ("/policies/" ++ escapeSegment name))) policies.keys
    Result.forM (fun definition ↦ onDerived definition fun location expr ↦
      Result.forM (checkReference table domains location) expr.preorder) ordered
    checkGraph (adjacencyOf ordered)
    Result.forM (fun definition ↦ onDerived definition
      (checkTypes table domains definition.kind)) ordered
    pure ⟨table, policies⟩

/-! ### Context checks -/

/-- `check_stored_kind` and `check_modifier_value`: a value against a declaration. -/
def checkKind (value : StatValue) (kind : StatKind) (location : String) : Result RulesError Unit :=
  if value.kind ≠ kind.kind then .err (.at .typeMismatch location)
  else match value, kind with
    | .enum entry, .enum enumId variants =>
      Result.failIf (entry.enumId ≠ enumId ∨ entry.variant ∉ variants)
        (RulesError.at .invalidEnum location)
    | _, _ => .ok ()

/-- One stored base entry against its declaration. -/
def checkStored (pipeline : ModifierPipeline) (entry : StatId × StatValue) :
    Result RulesError Unit :=
  let location := "/stats/" ++ toString entry.1
  match pipeline.definitions.get? entry.1 with
  | none => .err (.at .unknownStat location)
  | some definition =>
    if definition.derived.isSome then .err (.at .derivedBase location)
    else checkKind entry.2 definition.kind location

def checkOperand (value : StatValue) (location : String) : Result RulesError Unit :=
  match checkStandaloneValue value with
  | .error code => .err (.at code location)
  | .ok () => .ok ()

/-- The nested value limits of one operation. -/
def checkOpShape (op : ModOp) (location : String) : Result RulesError Unit :=
  match op with
  | .set value => checkOperand value location
  | .add value => checkOperand value location
  | .multiply _ => .ok ()
  | .clamp min max => (checkOperand min location).bind fun _ ↦ checkOperand max location

def supports (kind : StatKind) : ModOp → Bool
  | .set _ => true
  | _ => kind = .int || kind = .fixed

/-- The operands of one operation against the kind of its target. -/
def checkOpKind (kind : StatKind) (op : ModOp) (location : String) : Result RulesError Unit :=
  match op with
  | .set value => checkKind value kind location
  | .add value =>
    match kind, value with
    | .int, .int _ => .ok ()
    | .fixed, .fixed _ => .ok ()
    | _, _ => .err (.at .typeMismatch location)
  | .multiply _ => .ok ()
  | .clamp min max =>
    (checkKind min kind location).bind fun _ ↦ (checkKind max kind location).bind fun _ ↦
      match min, max with
      | .int a, .int b => Result.failIf (¬a ≤ b) (RulesError.at .invalidClamp location)
      | .fixed a, .fixed b => Result.failIf (¬a.raw ≤ b.raw) (RulesError.at .invalidClamp location)
      | _, _ => .err (.at .invalidClamp location)

def checkPolicy (policy : StackingPolicy) (modifier : Modifier) (root : String) :
    Result RulesError Unit :=
  match policy with
  | .stackAll => .ok ()
  | .highestBonusWorstPenalty =>
    match modifier.op with
    | .add _ => .ok ()
    | _ => .err (.at .invalidOperation (root ++ "/op"))
  | .highestPriorityPerName =>
    Result.failIf (modifier.name = none) (RulesError.at .invalidOperation (root ++ "/name"))

/-- The kind of a modifier's target: declared for a stat, an integer for a roll or defence. -/
def targetKind (pipeline : ModifierPipeline) (target : ModifierTarget) (root : String) :
    Result RulesError StatKind :=
  match target with
  | .stat id =>
    match pipeline.definitions.get? id with
    | some definition => .ok definition.kind
    | none => .err (.at .unknownStat (root ++ "/target"))
  | .roll _ => .ok .int
  | .dc _ => .ok .int

/-- Validates one modifier against its target declaration and policy. -/
def checkModifier (pipeline : ModifierPipeline) (modifier : Modifier) : Result RulesError Unit := do
  let root := "/modifiers/" ++ ulidText modifier.id
  let kind ← pipeline.targetKind modifier.target root
  Result.failIf (modifier.modType.isEmpty = true) (RulesError.at .invalidName (root ++ "/mod_type"))
  let policy ← Result.okOr (RulesError.at .unknownModifierType (root ++ "/mod_type"))
    (pipeline.policies.get? modifier.modType)
  Result.failIf (modifier.source.kind.isEmpty = true)
    (RulesError.at .invalidName (root ++ "/source"))
  Result.failIf (modifier.name.any String.isEmpty = true)
    (RulesError.at .invalidName (root ++ "/name"))
  checkOpShape modifier.op (root ++ "/op")
  Result.failIf (modifier.condition.any fun condition ↦
      condition.measure.1 > maxConditionNodes || condition.measure.2 > maxConditionDepth)
    (RulesError.at .limitExceeded (root ++ "/condition"))
  Result.failIf (supports kind modifier.op = false)
    (RulesError.at .invalidOperation (root ++ "/op"))
  checkOpKind kind modifier.op (root ++ "/op")
  checkPolicy policy modifier root

/-- Validates one borrowed context: limits, stored entries by ascending id, modifier identities,
then every modifier by ascending identity. -/
def checkContext (pipeline : ModifierPipeline) (context : QueryContext) :
    Result RulesError Unit := do
  Result.failIf (context.stats.len > maxStats) (RulesError.at .limitExceeded "/stats")
  Result.failIf (context.tags.card > maxTags) (RulesError.at .limitExceeded "/context")
  Result.failIf (context.modifiers.length > maxModifiers)
    (RulesError.at .limitExceeded "/modifiers")
  Result.forM pipeline.checkStored
    (context.stats.entries.insertionSort fun first second ↦ first.1 ≤ second.1)
  let ordered := context.modifiers.insertionSort fun first second ↦ first.id ≤ second.id
  match firstDuplicate ((context.modifiers.map Modifier.id).insertionSort (· ≤ ·)) with
  | some id => .err (.at .duplicateModifier ("/modifiers/" ++ ulidText id))
  | none => Result.forM pipeline.checkModifier ordered

end ModifierPipeline

/-! ### Stacking selection -/

/-- The signed amount of an addition, for bonus and penalty selection. -/
inductive Amount
  | int (value : ℤ)
  | fixed (value : Fx16)
deriving DecidableEq

def addAmount : StatValue → Option Amount
  | .int value => some (.int value)
  | .fixed value => some (.fixed value)
  | _ => none

def Amount.sign : Amount → ℤ
  | .int value => value.sign
  | .fixed value => value.raw.sign

/-- `compare_amount`: two amounts of one kind numerically; amounts of two kinds are equal. -/
def Amount.compare : Amount → Amount → Ordering
  | .int a, .int b => Ord.compare a b
  | .fixed a, .fixed b => Ord.compare a.raw b.raw
  | _, _ => .eq

/-- The retained keys and the statuses recorded so far. -/
structure Selection where
  retained : Finset ModKey
  status : BTreeMap Ulid ContributionStatus

namespace Selection

def retain (selection : Selection) (modifier : Modifier) : Selection :=
  { selection with retained := insert modifier.key selection.retained }

def record (selection : Selection) (id : Ulid) (status : ContributionStatus) : Selection :=
  { selection with status := selection.status.insert id status }

def crown (selection : Selection) (winner : Modifier) (members : List Modifier) : Selection :=
  members.foldl (fun selection member ↦
    if member.id ≠ winner.id then selection.record member.id (.suppressed winner.id) else selection)
    (selection.retain winner)

def replaces (positive : Bool) (candidate best : Modifier × Amount) : Bool :=
  let ordering := candidate.2.compare best.2
  ordering = (if positive then .gt else .lt) ||
    (ordering = .eq && decide (toLex (best.1.priority, best.1.id) <
      toLex (candidate.1.priority, candidate.1.id)))

def bestOf (positive : Bool) (side : List (Modifier × Amount)) : Option (Modifier × Amount) :=
  side.foldl (fun best candidate ↦
    match best with
    | none => some candidate
    | some best => if replaces positive candidate best then some candidate else some best) none

/-- `select_side`: the extreme amount wins, ties prefer the greatest priority and identity. -/
def selectSide (selection : Selection) (positive : Bool) (side : List (Modifier × Amount)) :
    Selection :=
  match bestOf positive side with
  | none => selection
  | some (winner, _) => selection.crown winner (side.map Prod.fst)

def additions (members : List Modifier) : List (Modifier × Amount) :=
  members.filterMap fun modifier ↦
    match modifier.op with
    | .add value => (addAmount value).map fun amount ↦ (modifier, amount)
    | _ => none

def byName (members : List Modifier) : BTreeMap String (List Modifier) :=
  members.foldl (fun names modifier ↦
    match modifier.name with
    | some name => names.insert name ((names.get? name).getD [] ++ [modifier])
    | none => names) BTreeMap.empty

/-- The last member with the greatest priority and identity. -/
def greatest : List Modifier → Option Modifier
  | [] => none
  | first :: rest => some <| rest.foldl (fun best modifier ↦
      if toLex (best.priority, best.id) ≤ toLex (modifier.priority, modifier.id) then modifier
      else best) first

/-- `select_group`: one stacking group under its policy. -/
def selectGroup (policy : StackingPolicy) (selection : Selection) (members : List Modifier) :
    Selection :=
  match policy with
  | .stackAll => members.foldl retain selection
  | .highestBonusWorstPenalty =>
    let amounts := additions members
    let zeroed := (amounts.filter fun entry ↦ entry.2.sign = 0).foldl
      (fun selection entry ↦ selection.record entry.1.id .zeroAdd) selection
    (zeroed.selectSide true (amounts.filter fun entry ↦ entry.2.sign = 1)).selectSide false
      (amounts.filter fun entry ↦ entry.2.sign = -1)
  | .highestPriorityPerName =>
    (byName members).values.foldl (fun selection members ↦
      match greatest members with
      | some winner => selection.crown winner members
      | none => selection) selection

def live (tags : TagSet) (modifier : Modifier) : Bool :=
  match modifier.condition with
  | none => true
  | some condition => condition.eval tags

/-- The live modifiers by type and phase, each group in order. -/
def groupsOf (modifiers : List Modifier) : BTreeMap (String ×ₗ Fin 4) (List Modifier) :=
  modifiers.foldl (fun groups modifier ↦
    let key := toLex (modifier.modType, phaseOf modifier.op)
    groups.insert key ((groups.get? key).getD [] ++ [modifier])) BTreeMap.empty

/-- The shared first half of both folds: false conditions are recorded, the rest is grouped and
each group is selected under the policy of its type. -/
def selectTargeting (policies : BTreeMap String StackingPolicy) (tags : TagSet)
    (targeting : List Modifier) : Selection :=
  let excluded := (targeting.filter fun modifier ↦ !live tags modifier).foldl
    (fun selection modifier ↦ selection.record modifier.id .conditionFalse) ⟨∅, BTreeMap.empty⟩
  (groupsOf (targeting.filter (live tags))).entries.foldl (fun selection group ↦
    selectGroup ((policies.get? (ofLex group.1).1).getD .stackAll) selection group.2) excluded

end Selection

/-- The modifiers of a context with a target, in order of application. -/
def targetingOf (modifiers : List Modifier) (target : ModifierTarget) : List Modifier :=
  (modifiers.filter fun modifier ↦ modifier.target = target).insertionSort fun first second ↦
    first.key ≤ second.key

def retainedOf (selection : Selection) (targeting : List Modifier) : List Modifier :=
  (targeting.filter fun modifier ↦ modifier.key ∈ selection.retained).insertionSort fun first second ↦
    first.key ≤ second.key

/-! ### The two folds -/

/-- `apply_numeric_modifier`: one retained operation on an integer. -/
def applyNumericModifier (running : ℤ) : ModOp → ℤ
  | .set (.int value) => value
  | .add (.int amount) => intAdd running amount
  | .multiply factor => intScale running factor
  | .clamp (.int lo) (.int hi) => max lo (min hi running)
  | _ => running

/-- `apply_modifier`: one retained operation on a stat value. -/
def applyModifier (running : StatValue) : ModOp → StatValue
  | .set value => value
  | .add value =>
    match running, value with
    | .int current, .int amount => .int (intAdd current amount)
    | .fixed current, .fixed amount => .fixed (current.saturatingAdd amount)
    | _, _ => running
  | .multiply factor =>
    match running with
    | .int current => .int (intScale current factor)
    | .fixed current => .fixed (current.saturatingMul factor)
    | _ => running
  | .clamp lo hi =>
    match running, lo, hi with
    | .int current, .int lo, .int hi => .int (max lo (min hi current))
    | .fixed current, .fixed lo, .fixed hi =>
      .fixed (if current.raw < lo.raw then lo else if hi.raw < current.raw then hi else current)
    | _, _, _ => running

/-- Runs the retained operations in order, recording the value before and after each. -/
def foldRetained {α : Type*} (apply : α → ModOp → α) (base : α) (order : List Modifier) :
    α × BTreeMap Ulid (α × α) :=
  order.foldl (fun state modifier ↦
    let after := apply state.1 modifier.op
    (after, state.2.insert modifier.id (state.1, after))) (base, BTreeMap.empty)

def contributionsOf {α : Type*} (wrap : α → StatValue) (selection : Selection)
    (applied : BTreeMap Ulid (α × α)) (targeting : List Modifier) : List Contribution :=
  targeting.map fun modifier ↦ ⟨modifier,
    match selection.status.get? modifier.id with
    | some status => status
    | none =>
      match applied.get? modifier.id with
      | some (before, after) => .applied (wrap before) (wrap after)
      | none => .conditionFalse⟩

/-- `fold_numeric`: folds integer-target modifiers onto a base. -/
def foldNumeric (policies : BTreeMap String StackingPolicy) (tags : TagSet) (base : ℤ)
    (targeting : List Modifier) : ℤ × List Contribution :=
  let selection := Selection.selectTargeting policies tags targeting
  let folded := foldRetained applyNumericModifier base (retainedOf selection targeting)
  (folded.1, contributionsOf .int selection folded.2 targeting)

def foldStat (policies : BTreeMap String StackingPolicy) (tags : TagSet) (base : StatValue)
    (targeting : List Modifier) : StatValue × List Contribution :=
  let selection := Selection.selectTargeting policies tags targeting
  let folded := foldRetained applyModifier base (retainedOf selection targeting)
  (folded.1, contributionsOf id selection folded.2 targeting)

/-! ### Queries -/

namespace ModifierPipeline

/-- The traces of one query so far. -/
abbrev Traces := BTreeMap StatId StatTrace

def resolveReference (eval : Traces → StatId → Result RulesError (StatValue × Traces))
    (state : BTreeMap StatId StatValue × Traces) (reference : StatId) :
    Result RulesError (BTreeMap StatId StatValue × Traces) :=
  if state.1.contains reference then .ok state
  else (eval state.2 reference).bind fun evaluated ↦
    .ok (state.1.insert reference evaluated.1, evaluated.2)

/-- The base of one stat: the value of its formula over the modified values of its references, or
its stored value; with the references. -/
def baseOf (context : QueryContext)
    (eval : Traces → StatId → Result RulesError (StatValue × Traces)) (traces : Traces)
    (stat : StatId) (definition : StatDefinition) :
    Result RulesError ((StatValue × List StatId) × Traces) :=
  let location := "/stats/" ++ toString stat
  match definition.derived with
  | some expr =>
    -- The source pops references from the end of the sorted list.
    (Result.foldlM (resolveReference eval) (BTreeMap.empty, traces) expr.sortedRefs.reverse).bind
      fun resolved ↦
        (Result.ofExcept (evalExpr (fun id ↦
          match resolved.1.get? id with
          | some value => .ok value
          | none => .error (.at .unknownStat location)) location expr)).bind fun value ↦
            .ok ((value, expr.sortedRefs), resolved.2)
  | none => (Result.okOr (RulesError.at .missingBase location) (context.stats.get? stat)).bind
      fun value ↦ .ok ((value, []), traces)

/-- `eval_stat`: the fully modified value of one stat, memoizing its trace. -/
def evalStat (pipeline : ModifierPipeline) (context : QueryContext) :
    ℕ → Traces → StatId → Result RulesError (StatValue × Traces)
  | 0, _, _ => .panic
  | fuel + 1, traces, stat =>
    match traces.get? stat with
    | some trace => .ok (trace.value, traces)
    | none =>
      (Result.okOr (RulesError.at .unknownStat ("/stats/" ++ toString stat))
        (pipeline.definitions.get? stat)).bind fun definition ↦
      (baseOf context (evalStat pipeline context fuel) traces stat definition).bind fun based ↦
        let folded := foldStat pipeline.policies context.tags based.1.1
          (targetingOf context.modifiers (.stat stat))
        .ok (folded.1, based.2.insert stat ⟨based.1.1, folded.1, based.1.2, folded.2⟩)

def query (pipeline : ModifierPipeline) (entity : EntityId) (stat : StatId)
    (context : QueryContext) : Result RulesError (StatValue × ModifierBreakdown) := do
  Result.failIf (context.entity ≠ entity) (RulesError.at .entityMismatch "/context/entity")
  Result.failIf (pipeline.definitions.contains stat = false)
    (RulesError.at .unknownStat ("/stats/" ++ toString stat))
  pipeline.checkContext context
  let evaluated ← pipeline.evalStat context (pipeline.definitions.size + 1) BTreeMap.empty stat
  pure (evaluated.1, ⟨entity, stat, evaluated.2⟩)

/-- Folds roll or defence modifiers onto an integer base. -/
def queryNumeric (pipeline : ModifierPipeline) (entity : EntityId) (target : ModifierTarget)
    (base : ℤ) (context : QueryContext) : Result RulesError (ℤ × NumericModifierBreakdown) := do
  Result.failIf (context.entity ≠ entity) (RulesError.at .entityMismatch "/context/entity")
  Result.failIf (target.isStat = true)
    (RulesError.at .invalidTarget "/target")
  pipeline.checkContext context
  let folded := foldNumeric pipeline.policies context.tags base
    (targetingOf context.modifiers target)
  pure (folded.1, ⟨entity, target, base, folded.1, folded.2⟩)

end ModifierPipeline

end Crpg.Rules
