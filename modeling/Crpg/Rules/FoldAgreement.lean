import Mathlib.Data.Rat.Floor
import Crpg.Rules.Stacking

/-!
# The two folds agree

Stat modifiers and roll modifiers run through one selection and two folds. Aiming the modifiers of
an integer stat at a roll or defence tag changes none of what the selection reads, and on integers
the two folds take the same steps: `folds_agree`. `intAdd_eq`, `intScale_eq` and `clamp_eq` say what
these steps compute.
-/

set_option autoImplicit false

namespace Crpg.Rules

open Crpg.Core Crpg.Lib
open List (filter_map foldl_map map_map mem_filter)

/-! ### Retargeting -/

def Modifier.retarget (target : ModifierTarget) (modifier : Modifier) : Modifier :=
  { modifier with target := target }

section Retarget

variable {target : ModifierTarget} {modifier : Modifier}

@[simp]
theorem retarget_id : (modifier.retarget target).id = modifier.id := rfl

@[simp]
theorem retarget_op : (modifier.retarget target).op = modifier.op := rfl

@[simp]
theorem retarget_name : (modifier.retarget target).name = modifier.name := rfl

@[simp]
theorem retarget_priority : (modifier.retarget target).priority = modifier.priority := rfl

@[simp]
theorem retarget_key : (modifier.retarget target).key = modifier.key := rfl

@[simp]
theorem live_retarget (tags : TagSet) :
    Selection.live tags (modifier.retarget target) = Selection.live tags modifier := rfl

end Retarget

namespace Selection

variable (target : ModifierTarget)

theorem crown_retarget (selection : Selection) (winner : Modifier) (members : List Modifier) :
    selection.crown (winner.retarget target) (members.map (Modifier.retarget target)) =
      selection.crown winner members := by
  unfold crown
  rw [foldl_map]
  rfl

theorem additions_retarget (members : List Modifier) :
    additions (members.map (Modifier.retarget target)) =
      (additions members).map fun entry ↦ (entry.1.retarget target, entry.2) := by
  unfold additions
  rw [List.filterMap_map, List.map_filterMap]
  apply List.filterMap_congr
  intro modifier _
  have hop : (modifier.retarget target).op = modifier.op := rfl
  simp only [Function.comp_apply, hop]
  cases modifier.op with
  | set value => rfl
  | add value =>
    dsimp only
    rw [Option.map_map]
    rfl
  | multiply factor => rfl
  | clamp lo hi => rfl

theorem bestOf_retarget (positive : Bool) (side : List (Modifier × Amount)) :
    bestOf positive (side.map fun entry ↦ (entry.1.retarget target, entry.2)) =
      (bestOf positive side).map fun entry ↦ (entry.1.retarget target, entry.2) := by
  unfold bestOf
  rw [foldl_map]
  show side.foldl _ (Option.map
    (fun entry : Modifier × Amount ↦ (entry.1.retarget target, entry.2)) none) = _
  apply List.foldl_hom (Option.map fun entry : Modifier × Amount ↦ (entry.1.retarget target, entry.2))
  intro best entry
  cases best with
  | none => rfl
  | some best =>
    show (if replaces positive entry best then some (entry.1.retarget target, entry.2)
      else some (best.1.retarget target, best.2)) =
        Option.map _ (if replaces positive entry best then some entry else some best)
    split_ifs
    · rfl
    · rfl

theorem selectSide_retarget (selection : Selection) (positive : Bool)
    (side : List (Modifier × Amount)) :
    selection.selectSide positive (side.map fun entry ↦ (entry.1.retarget target, entry.2)) =
      selection.selectSide positive side := by
  unfold selectSide
  rw [bestOf_retarget]
  cases bestOf positive side with
  | none => rfl
  | some best =>
    have hside : (side.map fun entry ↦ (entry.1.retarget target, entry.2)).map Prod.fst =
        (side.map Prod.fst).map (Modifier.retarget target) := by
      rw [map_map, map_map]
      rfl
    show selection.crown (best.1.retarget target) _ = selection.crown best.1 _
    rw [hside, crown_retarget]

theorem greatest_retarget (members : List Modifier) :
    greatest (members.map (Modifier.retarget target)) =
      (greatest members).map (Modifier.retarget target) := by
  cases members with
  | nil => rfl
  | cons first rest =>
    rw [List.map_cons, greatest, greatest, foldl_map, Option.map_some, Option.some.injEq]
    apply List.foldl_hom (Modifier.retarget target)
    intro best modifier
    show (if toLex (best.priority, best.id) ≤ toLex (modifier.priority, modifier.id)
      then modifier.retarget target else best.retarget target) = _
    split_ifs
    · rfl
    · rfl

theorem selectGroup_retarget (policy : StackingPolicy) (selection : Selection)
    (members : List Modifier) :
    selectGroup policy selection (members.map (Modifier.retarget target)) =
      selectGroup policy selection members := by
  cases policy with
  | stackAll =>
    show (members.map (Modifier.retarget target)).foldl retain selection = _
    rw [foldl_map]
    rfl
  | highestBonusWorstPenalty =>
    simp only [selectGroup, additions_retarget, filter_map, Function.comp_def, selectSide_retarget,
      foldl_map, retarget_id]
  | highestPriorityPerName =>
    have hnames : byName (members.map (Modifier.retarget target)) =
        (byName members).mapValues fun _ named ↦ named.map (Modifier.retarget target) := by
      rw [byName_eq, byName_eq, collect_map]
      rfl
    simp only [selectGroup, hnames, BTreeMap.values, BTreeMap.mapValues, map_map, foldl_map,
      Function.comp_def, greatest_retarget]
    congr 1
    funext before entry
    cases greatest entry.2 with
    | none => rfl
    | some winner => exact crown_retarget target before winner entry.2

theorem selectTargeting_retarget (policies : BTreeMap String StackingPolicy) (tags : TagSet)
    (targeting : List Modifier) :
    selectTargeting policies tags (targeting.map (Modifier.retarget target)) =
      selectTargeting policies tags targeting := by
  have hgroups : ∀ modifiers : List Modifier,
      groupsOf (modifiers.map (Modifier.retarget target)) =
        (groupsOf modifiers).mapValues fun _ members ↦ members.map (Modifier.retarget target) :=
    fun modifiers ↦ collect_map (fun modifier ↦ some (groupKey modifier)) _ modifiers
  have hlive : (live tags) ∘ Modifier.retarget target = live tags := rfl
  simp only [selectTargeting, filter_map, Function.comp_def, live_retarget, foldl_map, retarget_id]
  rw [hgroups]
  simp only [BTreeMap.mapValues, foldl_map, selectGroup_retarget]

end Selection

/-! ### Integer steps -/

theorem intAdd_eq (left right : ℤ) : intAdd left right = clampI32 (left + right) := rfl

theorem intScale_eq (value : ℤ) (factor : Fx16) :
    intScale value factor = clampI32 ⌊(value : ℚ) * factor.raw / 65536⌋ := by
  have hfloor : ⌊(value : ℚ) * factor.raw / 65536⌋ = value * factor.raw / 65536 := by
    have hcast := Rat.floor_intCast_div_natCast (value * factor.raw) 65536
    push_cast at hcast
    exact hcast
  rw [hfloor]
  simp only [intScale]
  congr 1
  generalize value * factor.raw = product
  by_cases hneg : product < 0
  · obtain ⟨size, hsize⟩ : ∃ size : ℤ, product = -size := ⟨-product, by omega⟩
    rw [hsize, Int.neg_tmod, Int.neg_tdiv, Int.tmod_eq_emod_of_nonneg (by omega),
      Int.tdiv_eq_ediv_of_nonneg (by omega)]
    split_ifs with htest
    · omega
    · omega
  · rw [if_neg fun h ↦ hneg h.2, Int.tdiv_eq_ediv_of_nonneg (by omega)]

theorem clampI32_cases (value : ℤ) : (InI32 value → clampI32 value = value) ∧
    (value < i32Min → clampI32 value = i32Min) ∧ (i32Max < value → clampI32 value = i32Max) := by
  unfold clampI32 InI32
  have hmin : i32Min = -2147483648 := rfl
  have hmax : i32Max = 2147483647 := rfl
  omega

/-- A clamp with ordered bounds returns the bound that is passed. -/
theorem clamp_eq {lo hi : ℤ} (hordered : lo ≤ hi) (running : ℤ) :
    applyNumericModifier running (.clamp (.int lo) (.int hi)) =
      if running < lo then lo else if hi < running then hi else running := by
  show max lo (min hi running) = _
  split_ifs with hlow hhigh
  · omega
  · omega
  · omega

/-- On an integer the two folds take the same step. Assumes: a modifier of an integer target. -/
theorem applyModifier_int {pipeline : ModifierPipeline} {modifier : Modifier}
    {stacking : StackingPolicy}
    (hvalid : ModifierPipeline.ValidModifier pipeline modifier .int stacking) (running : ℤ) :
    applyModifier (.int running) modifier.op = .int (applyNumericModifier running modifier.op) := by
  obtain ⟨value, hop⟩ | ⟨amount, hop⟩ | ⟨factor, hop⟩ | ⟨lo, hi, hop, -⟩ := hvalid.int_operands
  · rw [hop]
    rfl
  · rw [hop]
    rfl
  · rw [hop]
    rfl
  · rw [hop]
    rfl

/-! ### Agreement of the folds -/

def wrapPair (values : ℤ × ℤ) : StatValue × StatValue := (.int values.1, .int values.2)

theorem foldStep_int {order : List Modifier}
    (hsteps : ∀ modifier ∈ order, ∀ running, applyModifier (.int running) modifier.op =
      .int (applyNumericModifier running modifier.op))
    {stats : BTreeMap Ulid (StatValue × StatValue)} {numbers : BTreeMap Ulid (ℤ × ℤ)}
    (hrecords : ∀ id, stats.get? id = (numbers.get? id).map wrapPair) (running : ℤ) :
    (order.foldl (foldStep applyModifier) (.int running, stats)).1 =
        .int (order.foldl (foldStep applyNumericModifier) (running, numbers)).1 ∧
      ∀ id, (order.foldl (foldStep applyModifier) (.int running, stats)).2.get? id =
        ((order.foldl (foldStep applyNumericModifier) (running, numbers)).2.get? id).map
          wrapPair := by
  induction order generalizing stats numbers running with
  | nil => exact ⟨rfl, hrecords⟩
  | cons modifier rest ih =>
    rw [List.foldl_cons, List.foldl_cons]
    have hstep := hsteps modifier (List.mem_cons_self ..) running
    simp only [foldStep, hstep]
    apply ih (fun other hother ↦ hsteps other (List.mem_cons_of_mem _ hother))
    intro id
    by_cases hid : id = modifier.id
    · rw [hid, BTreeMap.get?_insert_self, BTreeMap.get?_insert_self]
      rfl
    · rw [BTreeMap.get?_insert_of_ne _ hid, BTreeMap.get?_insert_of_ne _ hid]
      exact hrecords id

/-- Both folds give one value and one list of statuses. Assumes: modifiers in order of application
that take the same step on integers. -/
theorem foldNumeric_retarget {policies : BTreeMap String StackingPolicy} {tags : TagSet}
    {targeting : List Modifier} (target : ModifierTarget)
    (hsorted : targeting.Pairwise fun first second ↦ first.key ≤ second.key)
    (hsteps : ∀ modifier ∈ targeting, ∀ running, applyModifier (.int running) modifier.op =
      .int (applyNumericModifier running modifier.op)) (base : ℤ) :
    (foldStat policies tags (.int base) targeting).1 =
        .int (foldNumeric policies tags base (targeting.map (Modifier.retarget target))).1 ∧
      (foldNumeric policies tags base (targeting.map (Modifier.retarget target))).2 =
        (foldStat policies tags (.int base) targeting).2.map fun entry ↦
          ⟨entry.modifier.retarget target, entry.status⟩ := by
  simp only [foldStat, foldNumeric, Selection.selectTargeting_retarget]
  generalize Selection.selectTargeting policies tags targeting = selection
  have hsorted' : (targeting.map (Modifier.retarget target)).Pairwise
      fun first second ↦ first.key ≤ second.key := List.pairwise_map.mpr hsorted
  have horder : retainedOf selection (targeting.map (Modifier.retarget target)) =
      (retainedOf selection targeting).map (Modifier.retarget target) := by
    rw [retainedOf_eq hsorted', retainedOf_eq hsorted, filter_map]
    rfl
  have hfold : foldRetained applyNumericModifier base
      (retainedOf selection (targeting.map (Modifier.retarget target))) =
        foldRetained applyNumericModifier base (retainedOf selection targeting) := by
    rw [horder, foldRetained_eq, foldRetained_eq, foldl_map]
    rfl
  have hkept : ∀ modifier ∈ retainedOf selection targeting, ∀ running,
      applyModifier (.int running) modifier.op =
        .int (applyNumericModifier running modifier.op) := by
    intro modifier hmem
    rw [retainedOf_eq hsorted] at hmem
    exact hsteps modifier (mem_filter.mp hmem).1
  obtain ⟨hvalue, hrecords⟩ := @foldStep_int _ hkept .empty .empty (fun _ ↦ rfl) base
  rw [hfold]
  refine ⟨hvalue, ?_⟩
  rw [contributionsOf_eq, contributionsOf_eq, map_map, map_map]
  apply List.map_congr_left
  intro modifier _
  show (⟨_, _⟩ : Contribution) = ⟨_, _⟩
  congr 1
  show statusOf _ _ _ (modifier.retarget target) = statusOf _ _ _ modifier
  unfold statusOf
  rw [retarget_id, foldRetained_eq, foldRetained_eq, hrecords]
  generalize ((retainedOf selection targeting).foldl (foldStep applyNumericModifier)
    (base, .empty)).2.get? modifier.id = record
  cases selection.status.get? modifier.id with
  | some status => rfl
  | none =>
    cases record with
    | none => rfl
    | some values => rfl

/-! ### Agreement of the queries -/

namespace QueryContext

/-- Another context with the same entity and tags, whose modifiers of a target are those of a stat,
aimed at that target. -/
structure Retargeted (context : QueryContext) (stat : StatId) (target : ModifierTarget)
    (other : QueryContext) : Prop where
  entity : other.entity = context.entity
  tags : other.tags = context.tags
  modifiers : (other.modifiers.filter fun modifier ↦ modifier.target = target).Perm
    ((context.modifiers.filter fun modifier ↦ modifier.target = .stat stat).map
      (Modifier.retarget target))

def retarget (context : QueryContext) (stat : StatId) (target : ModifierTarget) : QueryContext :=
  { context with
    modifiers := (context.modifiers.filter fun modifier ↦ modifier.target ≠ target).map
      fun modifier ↦
        if modifier.target = .stat stat then modifier.retarget target else modifier }

variable {context other : QueryContext} {stat : StatId} {target : ModifierTarget}

theorem retargeted_retarget (htarget : target.isStat = false) :
    Retargeted context stat target (context.retarget stat target) := by
  have hne : ModifierTarget.stat stat ≠ target := by
    rintro rfl
    cases htarget
  have hfilter : ((context.retarget stat target).modifiers.filter
      fun modifier ↦ modifier.target = target) =
        (context.modifiers.filter fun modifier ↦ modifier.target = .stat stat).map
          (Modifier.retarget target) := by
    unfold retarget
    rw [filter_map, List.filter_filter]
    have hsame : (context.modifiers.filter fun modifier ↦
        ((fun modifier : Modifier ↦ decide (modifier.target = target)) ∘ fun modifier ↦
          if modifier.target = .stat stat then modifier.retarget target else modifier) modifier &&
            decide (modifier.target ≠ target)) =
        context.modifiers.filter fun modifier ↦ modifier.target = .stat stat := by
      apply List.filter_congr
      intro modifier _
      rw [Bool.eq_iff_iff, Bool.and_eq_true, decide_eq_true_eq, decide_eq_true_eq]
      by_cases hstat : modifier.target = .stat stat
      · rw [Function.comp, if_pos hstat]
        exact iff_of_true ⟨decide_eq_true rfl, hstat ▸ hne⟩ hstat
      · rw [Function.comp, if_neg hstat, decide_eq_true_eq]
        exact iff_of_false (fun h ↦ h.2 h.1) hstat
    rw [hsame]
    apply List.map_congr_left
    intro modifier hmem
    rw [mem_filter, decide_eq_true_eq] at hmem
    rw [if_pos hmem.2]
  exact ⟨rfl, rfl, .of_eq hfilter⟩

/-- The modifiers of the target come in the order of those of the stat. Assumes: distinct
identities. -/
theorem Retargeted.targetingOf (hretargeted : Retargeted context stat target other)
    (hnodup : (other.modifiers.map Modifier.id).Nodup) : Rules.targetingOf other.modifiers target =
      (Rules.targetingOf context.modifiers (.stat stat)).map (Modifier.retarget target) := by
  have hkeys : ((other.modifiers.filter fun modifier ↦ modifier.target = target).map
      Modifier.key).Nodup := by
    apply List.Nodup.of_map (fun key : ModKey ↦ (ofLex (ofLex key).2).2)
    rw [map_map]
    exact hnodup.sublist (List.filter_sublist.map _)
  unfold Rules.targetingOf
  rw [insertionSort_eq_of_perm hretargeted.modifiers hkeys]
  symm
  apply List.map_insertionSort
  exact fun _ _ _ _ ↦ Iff.rfl

end QueryContext

namespace ModifierPipeline

variable {pipeline : ModifierPipeline} {context other : QueryContext} {stat : StatId}
  {target : ModifierTarget} {definition : StatDefinition}

/-- Retargeting keeps a context valid. Assumes: the stat is an integer. -/
theorem checkContext_retarget (hvalid : pipeline.checkContext context = .ok ())
    (hdefinition : pipeline.definitions.get? stat = some definition) (hkind : definition.kind = .int)
    (htarget : target.isStat = false) :
    pipeline.checkContext (context.retarget stat target) = .ok () := by
  rw [checkContext_eq_ok_iff] at hvalid ⊢
  have hids : (context.retarget stat target).modifiers.map Modifier.id =
      (context.modifiers.filter fun modifier ↦ modifier.target ≠ target).map Modifier.id := by
    unfold QueryContext.retarget
    rw [map_map]
    apply List.map_congr_left
    intro modifier _
    show (if modifier.target = .stat stat then modifier.retarget target else modifier).id = _
    split_ifs
    · rfl
    · rfl
  have hkindOf : ∀ root, pipeline.targetKind target root = .ok .int := by
    intro root
    cases target with
    | stat id => cases htarget
    | roll tag => rfl
    | dc tag => rfl
  refine
    { stats_le := hvalid.stats_le
      tags_le := hvalid.tags_le
      modifiers_le := ?_
      stored := hvalid.stored
      nodup := ?_
      modifiers := ?_ }
  · unfold QueryContext.retarget
    rw [List.length_map]
    exact (List.length_filter_le _ _).trans hvalid.modifiers_le
  · rw [hids]
    exact hvalid.nodup.sublist (List.filter_sublist.map _)
  · intro modifier hmem
    obtain ⟨source, hsource, rfl⟩ := List.mem_map.mp hmem
    have hchecked := hvalid.modifiers source (mem_filter.mp hsource).1
    split_ifs with hstat
    · rw [Modifier.retarget, checkModifier_retarget]
      · exact hchecked
      · intro root
        rw [hkindOf, hstat, targetKind, hdefinition]
        exact congrArg Result.ok hkind.symm
    · exact hchecked

theorem query_stored (hvalid : pipeline.checkContext context = .ok ())
    (hdefinition : pipeline.definitions.get? stat = some definition)
    (hstored : definition.derived = none) {base : StatValue}
    (hbase : context.stats.get? stat = some base) :
    let folded := foldStat pipeline.policies context.tags base
      (targetingOf context.modifiers (.stat stat))
    pipeline.query context.entity stat context = .ok (folded.1, ⟨context.entity, stat,
      BTreeMap.empty.insert stat ⟨base, folded.1, [], folded.2⟩⟩) := by
  have hcontains : pipeline.definitions.contains stat ≠ false := by
    rw [BTreeMap.contains, hdefinition]
    exact nofun
  simp only [query, Result.failIf, Result.bind_eq, Result.pure_eq, ne_eq, not_true, if_false,
    Result.ok_bind, if_neg hcontains, hvalid, evalStat, BTreeMap.get?_empty, hdefinition,
    Result.okOr, baseOf, hstored, hbase]

theorem queryNumeric_valid (hvalid : pipeline.checkContext context = .ok ())
    (htarget : target.isStat = false) (base : ℤ) :
    let folded := foldNumeric pipeline.policies context.tags base
      (targetingOf context.modifiers target)
    pipeline.queryNumeric context.entity target base context =
      .ok (folded.1, ⟨context.entity, target, base, folded.1, folded.2⟩) := by
  simp only [queryNumeric, Result.failIf, Result.bind_eq, Result.pure_eq, ne_eq, not_true, if_false,
    Result.ok_bind, htarget, Bool.false_eq_true, hvalid]

end ModifierPipeline

open ModifierPipeline QueryContext

/-- A stored integer stat answers a query as the integer query does on its base, with its modifiers
aimed at a roll or defence tag: the same value, and the same contributions with the same statuses.
Retargeting itself keeps the context valid. The steps of both are exact arithmetic, floored where it
scales, and clamped. -/
theorem folds_agree {pipeline : ModifierPipeline} {context : QueryContext} {stat : StatId}
    {definition : StatDefinition} {base : ℤ} {target : ModifierTarget}
    (hvalid : pipeline.checkContext context = .ok ())
    (hdefinition : pipeline.definitions.get? stat = some definition) (hkind : definition.kind = .int)
    (hstored : definition.derived = none) (hbase : context.stats.get? stat = some (.int base))
    (htarget : target.isStat = false) :
    (pipeline.checkContext (context.retarget stat target) = .ok () ∧
      Retargeted context stat target (context.retarget stat target)) ∧
    (∀ other, Retargeted context stat target other → pipeline.checkContext other = .ok () →
      ∃ answer numeric trace, pipeline.query context.entity stat context = .ok answer ∧
        pipeline.queryNumeric context.entity target base other = .ok numeric ∧
        answer.2.traces.get? stat = some trace ∧ answer.1 = .int numeric.1 ∧
        numeric.2.contributions = trace.contributions.map fun entry ↦
          ⟨entry.modifier.retarget target, entry.status⟩) ∧
    (∀ left right, intAdd left right = clampI32 (left + right)) ∧
    (∀ (value : ℤ) (factor : Fx16),
      intScale value factor = clampI32 ⌊(value : ℚ) * factor.raw / 65536⌋) ∧
    (∀ value, (InI32 value → clampI32 value = value) ∧
      (value < i32Min → clampI32 value = i32Min) ∧ (i32Max < value → clampI32 value = i32Max)) ∧
    ∀ lo hi running, lo ≤ hi → applyNumericModifier running (.clamp (.int lo) (.int hi)) =
      if running < lo then lo else if hi < running then hi else running := by
  refine ⟨⟨checkContext_retarget hvalid hdefinition hkind htarget, retargeted_retarget htarget⟩,
    fun other hretargeted hother ↦ ?_, intAdd_eq, intScale_eq, clampI32_cases,
    fun lo hi running hordered ↦ clamp_eq hordered running⟩
  have hcontext := checkContext_eq_ok_iff.mp hvalid
  have hnumeric := queryNumeric_valid hother htarget base
  rw [hretargeted.entity, hretargeted.tags,
    hretargeted.targetingOf (checkContext_eq_ok_iff.mp hother).nodup] at hnumeric
  have hsteps : ∀ modifier ∈ targetingOf context.modifiers (.stat stat), ∀ running,
      applyModifier (.int running) modifier.op =
        .int (applyNumericModifier running modifier.op) := by
    intro modifier hmem
    obtain ⟨hin, hstat⟩ := ValidContext.mem_targeting.mp hmem
    obtain ⟨kind, stacking, hmodifier⟩ := hcontext.validModifier hin
    have hkind' := hmodifier.target
    rw [hstat, targetKind, hdefinition] at hkind'
    obtain rfl : kind = .int := by
      rw [← hkind]
      exact (Result.ok.inj hkind').symm
    exact applyModifier_int hmodifier
  obtain ⟨hvalue, hcontributions⟩ := @foldNumeric_retarget pipeline.policies context.tags _ target
    ((hcontext.ascending_targeting (.stat stat)).imp le_of_lt) hsteps base
  exact ⟨_, _, _, query_stored hvalid hdefinition hstored hbase, hnumeric,
    BTreeMap.get?_insert_self .., hvalue, hcontributions⟩

/-- The bonuses of a stat, aimed at a roll: ten becomes twelve in both queries. -/
theorem folds_agree_bonuses : (bonusPipeline.queryNumeric bonusContext.entity (.roll 9) 10
      (bonusContext.retarget 0 (.roll 9))).isOkAnd (fun numeric ↦ numeric.1 = 12) = true ∧
    ∃ answer numeric trace, bonusPipeline.query bonusContext.entity 0 bonusContext = .ok answer ∧
      bonusPipeline.queryNumeric bonusContext.entity (.roll 9) 10
        (bonusContext.retarget 0 (.roll 9)) = .ok numeric ∧ answer.2.traces.get? 0 = some trace ∧
      answer.1 = .int numeric.1 ∧ numeric.2.contributions = trace.contributions.map fun entry ↦
        ⟨entry.modifier.retarget (.roll 9), entry.status⟩ := by
  constructor
  · decide +kernel
  · have hvalid : bonusPipeline.checkContext bonusContext = .ok () := by decide +kernel
    have hdefinition : bonusPipeline.definitions.get? 0 = some ⟨0, .int, none⟩ := by decide +kernel
    have hbase : bonusContext.stats.get? 0 = some (.int 10) := by decide +kernel
    obtain ⟨⟨hchecked, hretargeted⟩, hagree, -⟩ :=
      @folds_agree _ _ _ _ _ (.roll 9) hvalid hdefinition rfl rfl hbase rfl
    exact hagree _ hretargeted hchecked

end Crpg.Rules
