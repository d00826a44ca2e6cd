import Crpg.Rules.Evaluation
import Crpg.Rules.Stacking

/-!
# Integers stay in range

The integers of definitions, base values and modifiers are of type `i32`; the model's are unbounded,
and these predicates say that they lie in the range of the type. The arithmetic saturates, so every
value an evaluation or a fold computes from them does too.
-/

set_option autoImplicit false

namespace Crpg.Rules

open Crpg.Core Crpg.Lib ModifierPipeline

/-- An integer value lies in the range of its type. -/
def StatValue.InRange : StatValue → Prop
  | .int value => InI32 value
  | _ => True

/-- The integer operands of an operation lie in the range of their type. -/
def ModOp.InRange : ModOp → Prop
  | .set value => value.InRange
  | .add value => value.InRange
  | .multiply _ => True
  | .clamp lo hi => lo.InRange ∧ hi.InRange

/-- The integer literals of a formula lie in the range of their type. -/
def Expr.InRange : Expr → Prop
  | .literal value => value.InRange
  | .stat _ => True
  | .binary _ left right => left.InRange ∧ right.InRange

/-- The integers of a pipeline lie in the range of their type. -/
def ModifierPipeline.InRange (pipeline : ModifierPipeline) : Prop :=
  ∀ stat definition expr, pipeline.definitions.get? stat = some definition →
    definition.derived = some expr → expr.InRange

/-- The integers of a context lie in the range of their type. -/
structure QueryContext.InRange (context : QueryContext) : Prop where
  stats : ∀ stat base, context.stats.get? stat = some base → base.InRange
  modifiers : ∀ modifier ∈ context.modifiers, modifier.op.InRange

/-! ### Arithmetic -/

/-- A floored quotient of integers in range is in range. -/
theorem inI32_intDivide {left right quotient : ℤ} (hleft : InI32 left)
    (hquotient : intDivide left right = some quotient) : InI32 quotient := by
  have hmin : i32Min = -2147483648 := rfl
  have hmax : i32Max = 2147483647 := rfl
  unfold InI32 at hleft ⊢
  unfold intDivide at hquotient
  -- Divisors of size one keep the dividend's size; larger ones halve it at least.
  by_cases hone : right = 1
  · rw [hone, if_neg (by decide), if_neg (by omega), Int.tmod_one, Int.tdiv_one] at hquotient
    cases hquotient
    exact hleft
  by_cases hnegative : right = -1
  · rw [hnegative, if_neg (by decide)] at hquotient
    have hmod : left.tmod (-1) = 0 := by rw [Int.tmod_neg, Int.tmod_one]
    have hdiv : left.tdiv (-1) = -left := by rw [Int.tdiv_neg, Int.tdiv_one]
    rw [hmod, hdiv] at hquotient
    by_cases hleast : left = i32Min
    · rw [if_pos ⟨hleast, rfl⟩] at hquotient
      cases hquotient
      omega
    · rw [if_neg fun h ↦ hleast h.1] at hquotient
      cases hquotient
      omega
  by_cases hzero : right = 0
  · rw [if_pos hzero] at hquotient
    cases hquotient
  · rw [if_neg hzero, if_neg fun h ↦ hnegative h.2] at hquotient
    have hhalf : (left.tdiv right).natAbs ≤ left.natAbs / 2 := by
      rw [Int.natAbs_tdiv]
      exact Nat.div_le_div_left (by omega) (by omega)
    split_ifs at hquotient
    · cases hquotient
      omega
    · cases hquotient
      omega

theorem inI32_onInt {op : BinaryOp} {left right value : ℤ} (hleft : InI32 left)
    (hright : InI32 right) (hvalue : onInt op left right = some value) : InI32 value := by
  cases op with
  | add =>
    cases hvalue
    exact inI32_clampI32 _
  | subtract =>
    cases hvalue
    exact inI32_clampI32 _
  | multiply =>
    cases hvalue
    exact inI32_clampI32 _
  | divide => exact inI32_intDivide hleft hvalue
  | min =>
    cases hvalue
    exact ⟨le_min hleft.1 hright.1, (min_le_left _ _).trans hleft.2⟩
  | max =>
    cases hvalue
    exact ⟨hleft.1.trans (le_max_left _ _), max_le hleft.2 hright.2⟩

/-! ### Folds -/

theorem applyNumericModifier_inRange {running : ℤ} (hrunning : InI32 running) {op : ModOp}
    (hop : op.InRange) : InI32 (applyNumericModifier running op) := by
  unfold applyNumericModifier
  split
  · exact hop
  · exact inI32_clampI32 _
  · exact inI32_clampI32 _
  · exact ⟨hop.1.1.trans (le_max_left _ _),
      max_le hop.1.2 ((min_le_left _ _).trans hop.2.2)⟩
  · exact hrunning

theorem applyModifier_inRange {running : StatValue} (hrunning : running.InRange) {op : ModOp}
    (hop : op.InRange) : (applyModifier running op).InRange := by
  cases op with
  | set value => exact hop
  | add value =>
    unfold applyModifier
    dsimp only
    split
    · exact inI32_clampI32 _
    · trivial
    · exact hrunning
  | multiply factor =>
    unfold applyModifier
    dsimp only
    split
    · exact inI32_clampI32 _
    · trivial
    · exact hrunning
  | clamp lo hi =>
    unfold applyModifier
    dsimp only
    split
    · exact ⟨hop.1.1.trans (le_max_left _ _), max_le hop.1.2 ((min_le_left _ _).trans hop.2.2)⟩
    · trivial
    · exact hrunning

section Folds

variable {pipeline : ModifierPipeline} {context : QueryContext}

theorem QueryContext.InRange.retained (hcontext : context.InRange) {selection : Selection}
    {target : ModifierTarget} {modifier : Modifier}
    (hmem : modifier ∈ retainedOf selection (targetingOf context.modifiers target)) :
    modifier.op.InRange := by
  rw [retainedOf, List.mem_insertionSort, List.mem_filter] at hmem
  exact hcontext.modifiers modifier (ValidContext.mem_targeting.mp hmem.1).1

theorem foldNumeric_inRange (hcontext : context.InRange) {tags : TagSet} {target : ModifierTarget}
    {base : ℤ} (hbase : InI32 base) :
    InI32 (foldNumeric pipeline.policies tags base (targetingOf context.modifiers target)).1 := by
  have hops := fun modifier ↦ @hcontext.retained context
    (Selection.selectTargeting pipeline.policies tags (targetingOf context.modifiers target))
    target modifier
  simp only [foldNumeric]
  generalize retainedOf _ _ = order at hops ⊢
  rw [foldRetained_eq]
  generalize (BTreeMap.empty : BTreeMap Ulid (ℤ × ℤ)) = records
  induction order generalizing base records with
  | nil => exact hbase
  | cons modifier rest ih =>
    rw [List.foldl_cons]
    exact ih (applyNumericModifier_inRange hbase (hops modifier (List.mem_cons_self ..)))
      (fun other hother ↦ hops other (List.mem_cons_of_mem _ hother)) _

theorem modified_inRange (hcontext : context.InRange) {stat : StatId} {base : StatValue}
    (hbase : base.InRange) : (modified pipeline context stat base).InRange := by
  have hops := fun modifier ↦ @hcontext.retained context
    (Selection.selectTargeting pipeline.policies context.tags
      (targetingOf context.modifiers (.stat stat))) (.stat stat) modifier
  unfold modified
  generalize retainedOf _ _ = order at hops ⊢
  induction order generalizing base with
  | nil => exact hbase
  | cons modifier rest ih =>
    rw [List.foldl_cons]
    exact ih (applyModifier_inRange hbase (hops modifier (List.mem_cons_self ..)))
      fun other hother ↦ hops other (List.mem_cons_of_mem _ hother)

theorem denote_inRange {expr : Expr} (hexpr : expr.InRange) {values : StatId → StatValue}
    (hvalues : ∀ reference ∈ expr.refs, (values reference).InRange) {value : StatValue}
    (hvalue : expr.denote values = some value) : value.InRange := by
  induction expr generalizing value with
  | literal literal =>
    cases hvalue
    exact hexpr
  | stat id =>
    cases hvalue
    exact hvalues id (List.mem_singleton.mpr rfl)
  | binary op left right hleft hright =>
    rw [Expr.denote] at hvalue
    split at hvalue
    · rename_i a b ha hb
      rw [Option.map_eq_some_iff] at hvalue
      obtain ⟨number, hnumber, rfl⟩ := hvalue
      exact inI32_onInt
        (hleft hexpr.1 (fun reference hmem ↦ hvalues reference (List.mem_append_left _ hmem)) ha)
        (hright hexpr.2 (fun reference hmem ↦ hvalues reference (List.mem_append_right _ hmem)) hb)
        hnumber
    · rw [Option.map_eq_some_iff] at hvalue
      obtain ⟨number, -, rfl⟩ := hvalue
      trivial
    · cases hvalue

theorem Evaluates.inRange (hpipeline : pipeline.InRange) (hcontext : context.InRange)
    {stat : StatId} {value : StatValue} (hvalue : Evaluates pipeline context stat value) :
    value.InRange := by
  induction hvalue with
  | stored _ _ hbase => exact modified_inRange hcontext (hcontext.stats _ _ hbase)
  | derived values hdefinition hderived _ hbase ih =>
    exact modified_inRange hcontext
      (denote_inRange (hpipeline _ _ _ hdefinition hderived) ih hbase)

end Folds

end Crpg.Rules
