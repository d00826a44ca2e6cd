import Crpg.Rules.Validity

/-!
# The order of a context

A query does not see the order of the modifiers it is given, nor the order in which base values were
stored: the checks and the folds sort what they scan, by keys that a valid context keeps distinct.
`query_reordered` covers the values, the breakdowns and the errors.
-/

set_option autoImplicit false

namespace Crpg.Rules

open Crpg.Core Crpg.Lib

/-- Two contexts with the same entity, tags, base values and modifiers, in any order. -/
structure QueryContext.Reordered (context other : QueryContext) : Prop where
  entity : other.entity = context.entity
  tags : other.tags = context.tags
  stats : other.stats.entries.Perm context.stats.entries
  modifiers : other.modifiers.Perm context.modifiers

namespace QueryContext.Reordered

variable {context other : QueryContext}

section

variable (hreordered : Reordered context other)
include hreordered

/-- The base values are the same. -/
theorem get?_stats (stat : StatId) : other.stats.get? stat = context.stats.get? stat := by
  apply Option.ext
  intro value
  rw [← IndexMap.mem_entries_iff, ← IndexMap.mem_entries_iff]
  exact hreordered.stats.mem_iff

theorem sorted_stats : other.stats.entries.insertionSort (fun first second ↦ first.1 ≤ second.1) =
      context.stats.entries.insertionSort fun first second ↦ first.1 ≤ second.1 :=
  insertionSort_eq_of_perm hreordered.stats other.stats.nodup

theorem checkContext (pipeline : ModifierPipeline) :
    pipeline.checkContext other = pipeline.checkContext context := by
  have hids : (other.modifiers.map Modifier.id).insertionSort (· ≤ ·) =
      (context.modifiers.map Modifier.id).insertionSort (· ≤ ·) :=
    insertionSort_eq_of_perm_keys (hreordered.modifiers.map Modifier.id)
  have hlen : other.stats.len = context.stats.len := hreordered.stats.length_eq
  unfold ModifierPipeline.checkContext
  rw [hlen, hreordered.tags, hreordered.modifiers.length_eq, hreordered.sorted_stats, hids]
  cases hduplicate :
      firstDuplicate ((context.modifiers.map Modifier.id).insertionSort (· ≤ ·)) with
  | some id => rfl
  | none =>
    have hnodup : (other.modifiers.map Modifier.id).Nodup := by
      apply (hreordered.modifiers.map Modifier.id).nodup_iff.mpr
      exact (firstDuplicate_sorted_iff _).mp hduplicate
    rw [insertionSort_eq_of_perm hreordered.modifiers hnodup]

theorem targetingOf (hnodup : (context.modifiers.map Modifier.id).Nodup) (target : ModifierTarget) :
    Rules.targetingOf other.modifiers target = Rules.targetingOf context.modifiers target := by
  apply insertionSort_eq_of_perm (hreordered.modifiers.filter _)
  have hkeys : (other.modifiers.map Modifier.key).Nodup := by
    apply (hreordered.modifiers.map Modifier.key).nodup_iff.mpr
    apply List.Nodup.of_map (fun key : ModKey ↦ (ofLex (ofLex key).2).2)
    rw [List.map_map]
    exact hnodup
  exact hkeys.sublist (List.filter_sublist.map _)

/-- Evaluation answers the same from any traces. -/
theorem evalStat (hnodup : (context.modifiers.map Modifier.id).Nodup)
    (pipeline : ModifierPipeline) (fuel : ℕ) :
    pipeline.evalStat other fuel = pipeline.evalStat context fuel := by
  induction fuel with
  | zero => rfl
  | succ fuel ih =>
    funext traces stat
    simp only [ModifierPipeline.evalStat, ModifierPipeline.baseOf, ih, hreordered.get?_stats,
      hreordered.tags, hreordered.targetingOf hnodup]

end

end QueryContext.Reordered

/-- Queries of stats, rolls and defences do not see the order of modifiers or of base values: the
value and its breakdown are the same, or the error and its location. Assumes: contexts that differ
in order only. -/
theorem query_reordered {context other : QueryContext}
    (hreordered : QueryContext.Reordered context other) (pipeline : ModifierPipeline)
    (entity : EntityId) :
    (∀ stat, pipeline.query entity stat other = pipeline.query entity stat context) ∧
      ∀ target base, pipeline.queryNumeric entity target base other =
        pipeline.queryNumeric entity target base context := by
  have hchecked : ∀ value, pipeline.checkContext context = .ok value →
      (context.modifiers.map Modifier.id).Nodup := by
    intro value hok
    exact (ModifierPipeline.checkContext_eq_ok_iff.mp hok).nodup
  constructor
  · intro stat
    unfold ModifierPipeline.query
    rw [hreordered.checkContext, hreordered.entity]
    simp only [Result.bind_eq]
    refine Result.bind_congr fun _ _ ↦ Result.bind_congr fun _ _ ↦ Result.bind_congr
      fun value hok ↦ ?_
    rw [hreordered.evalStat (hchecked value hok)]
  · intro target base
    unfold ModifierPipeline.queryNumeric
    rw [hreordered.checkContext, hreordered.entity]
    simp only [Result.bind_eq]
    refine Result.bind_congr fun _ _ ↦ Result.bind_congr fun _ _ ↦ Result.bind_congr
      fun value hok ↦ ?_
    rw [hreordered.targetingOf (hchecked value hok), hreordered.tags]

def sampleRaise (id : Ulid) (priority : ℤ) : Modifier where
  id
  source := ⟨"effect", id⟩
  target := .stat 0
  op := .add (.int 2)
  modType := "bonus"
  name := none
  condition := none
  priority

def samplePipeline : ModifierPipeline :=
  ⟨.ofList [(0, ⟨0, .int, none⟩)], .ofList [("bonus", .stackAll)]⟩

/-- The stat at three, with some modifiers. -/
def sampleContext (modifiers : List Modifier) : QueryContext :=
  ⟨⟨0, firstGeneration⟩, .ofList [(0, .int 3)], ∅, modifiers⟩

/-- Two raises give the same answer in either order. -/
theorem query_reordered_raises : (samplePipeline.query ⟨0, firstGeneration⟩ 0
      (sampleContext [sampleRaise 1 0, sampleRaise 2 5])).isOkAnd
        (fun answer ↦ answer.1 = .int 7) = true ∧
    samplePipeline.query ⟨0, firstGeneration⟩ 0 (sampleContext [sampleRaise 2 5, sampleRaise 1 0]) =
      samplePipeline.query ⟨0, firstGeneration⟩ 0
        (sampleContext [sampleRaise 1 0, sampleRaise 2 5]) := by
  constructor
  · decide +kernel
  · have hreordered : QueryContext.Reordered (sampleContext [sampleRaise 1 0, sampleRaise 2 5])
        (sampleContext [sampleRaise 2 5, sampleRaise 1 0]) :=
      ⟨rfl, rfl, .refl _, .swap _ _ _⟩
    exact (query_reordered hreordered samplePipeline _).1 0

end Crpg.Rules
