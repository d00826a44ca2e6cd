import Crpg.Rules.Cycle
import Crpg.Rules.Validity

/-!
# Validated definitions

What `ModifierPipeline::new` establishes, as a structure: every definition is filed under its own
identity, refers to declared stats only, has the kind its formula computes, and no dependency path
goes on forever.
-/

set_option autoImplicit false

namespace Crpg.Rules

open Crpg.Core Crpg.Lib

def StatDefinition.refs (definition : StatDefinition) : List StatId :=
  (definition.derived.map Expr.sortedRefs).getD []

theorem mem_sortDedup {α : Type*} [LinearOrder α] {items : List α} {item : α} :
    item ∈ sortDedup items ↔ item ∈ items := by
  rw [sortDedup, Finset.mem_sort, List.mem_toFinset]

theorem pairwise_sortDedup {α : Type*} [LinearOrder α] (items : List α) :
    (sortDedup items).Pairwise (· < ·) :=
  (Finset.sortedLT_sort items.toFinset).pairwise

namespace Expr

theorem mem_sortedRefs {expr : Expr} {stat : StatId} : stat ∈ expr.sortedRefs ↔ stat ∈ expr.refs :=
  mem_sortDedup

/-- Every reference is a node. -/
theorem stat_mem_preorder {expr : Expr} {stat : StatId} (hmem : stat ∈ expr.refs) :
    Expr.stat stat ∈ expr.preorder := by
  induction expr with
  | literal value => exact absurd hmem List.not_mem_nil
  | stat id =>
    rw [List.mem_singleton.mp hmem]
    exact List.mem_singleton.mpr rfl
  | binary op left right hleft hright =>
    rw [refs, List.mem_append] at hmem
    rw [preorder, List.mem_cons, List.mem_append]
    cases hmem with
    | inl hmem => exact Or.inr (Or.inl (hleft hmem))
    | inr hmem => exact Or.inr (Or.inr (hright hmem))

end Expr

namespace ModifierPipeline

/-- A stat is a reference of another's formula. -/
def RefersTo (pipeline : ModifierPipeline) (reference stat : StatId) : Prop :=
  ∃ definition, pipeline.definitions.get? stat = some definition ∧ reference ∈ definition.refs

/-- What construction establishes. -/
structure ValidPipeline (pipeline : ModifierPipeline) : Prop where
  identified : ∀ stat definition, pipeline.definitions.get? stat = some definition →
    definition.id = stat
  declared : ∀ stat definition, pipeline.definitions.get? stat = some definition →
    ∀ reference ∈ definition.refs, ∃ other, pipeline.definitions.get? reference = some other
  typed : ∃ domains, ∀ stat definition expr, pipeline.definitions.get? stat = some definition →
    definition.derived = some expr →
      exprKind pipeline.definitions domains expr = some definition.kind
  accessible : ∀ stat, Acc pipeline.RefersTo stat

/-- The dependency graph is the table of the references. -/
theorem adjacencyOf_eq (ordered : List StatDefinition) : adjacencyOf ordered =
      (BTreeMap.ofList (ordered.map fun definition ↦ (definition.id, definition))).mapValues
        fun _ definition ↦ definition.refs := by
  unfold adjacencyOf BTreeMap.ofList
  rw [List.foldl_map, List.foldl_map]
  show ordered.foldl _ ((BTreeMap.empty : DefinitionTable).mapValues
    fun _ definition ↦ definition.refs) = _
  apply List.foldl_hom (fun table : DefinitionTable ↦
    table.mapValues fun _ definition ↦ definition.refs)
  intro table definition
  apply BTreeMap.ext_get?
  intro key
  rw [BTreeMap.get?_insert, BTreeMap.get?_mapValues, BTreeMap.get?_mapValues, BTreeMap.get?_insert]
  split_ifs
  · rfl
  · rfl

theorem onDerived_of_forM {check : StatDefinition → String → Expr → Result RulesError Unit}
    {ordered : List StatDefinition}
    (hchecks : Result.forM (fun definition ↦ onDerived definition (check definition)) ordered =
      .ok ()) {definition : StatDefinition} (hmem : definition ∈ ordered) {expr : Expr}
    (hderived : definition.derived = some expr) :
    check definition (definitionPath definition.id "/derived") expr = .ok () := by
  have hcheck := Result.forM_eq_ok_iff.mp hchecks definition hmem
  rw [onDerived, hderived] at hcheck
  exact hcheck

theorem validPipeline_of_new {definitions : List StatDefinition}
    {policies : BTreeMap String StackingPolicy} {pipeline : ModifierPipeline}
    (hnew : new definitions policies = .ok pipeline) : ValidPipeline pipeline := by
  simp only [new, Result.bind_eq, Result.bind_eq_ok_iff, Result.failIf_eq_ok_iff,
    exists_const, Result.pure_eq] at hnew
  obtain ⟨-, -, ⟨⟩, -, -, hrest⟩ := hnew
  split at hrest
  · cases hrest
  · simp only [Result.bind_eq_ok_iff] at hrest
    obtain ⟨domains, -, ⟨⟩, -, ⟨⟩, hreferences, ⟨⟩, hgraph, ⟨⟩, htypes, hpipeline⟩ := hrest
    cases hpipeline
    generalize definitions.insertionSort
      (fun first second ↦ first.id ≤ second.id) = ordered at *
    have hfiled : ∀ stat definition, (BTreeMap.ofList (ordered.map fun definition ↦
        (definition.id, definition))).get? stat = some definition →
          definition ∈ ordered ∧ definition.id = stat := by
      intro stat definition hget
      obtain ⟨found, hfound, heq⟩ := List.mem_map.mp (BTreeMap.mem_of_get?_ofList hget)
      cases heq
      exact ⟨hfound, rfl⟩
    refine
      { identified := fun stat definition hget ↦ (hfiled stat definition hget).2
        declared := fun stat definition hget reference hreference ↦ ?_
        typed := ⟨domains, fun stat definition expr hget hderived ↦ ?_⟩
        accessible := fun stat ↦ ?_ }
    · cases hderived : definition.derived with
      | none =>
        rw [StatDefinition.refs, hderived] at hreference
        exact absurd hreference List.not_mem_nil
      | some expr =>
        rw [StatDefinition.refs, hderived] at hreference
        have hcheck := onDerived_of_forM hreferences (hfiled stat definition hget).1 hderived
        have hnode := Result.forM_eq_ok_iff.mp hcheck _
          (Expr.stat_mem_preorder (Expr.mem_sortedRefs.mp hreference))
        rw [checkReference, Result.failIf_eq_ok_iff, Bool.not_eq_false, BTreeMap.contains,
          Option.isSome_iff_exists] at hnode
        exact hnode
    · have hcheck := onDerived_of_forM htypes (hfiled stat definition hget).1 hderived
      rw [checkTypes, Result.bind_eq_ok_iff] at hcheck
      obtain ⟨_, -, hkind⟩ := hcheck
      rw [Result.failIf_eq_ok_iff, not_not] at hkind
      exact hkind
    · rw [checkGraph, Result.bind_eq_ok_iff] at hgraph
      obtain ⟨found, hfound, hacyclic⟩ := hgraph
      rw [Result.expect_eq_ok_iff] at hfound
      cases found with
      | some cycle => cases hacyclic
      | none =>
        apply Subrelation.accessible ?_ (accessible_of_findCycle hfound stat)
        rintro reference other ⟨definition, hget, hreference⟩
        rw [Adjacency.Refers, adjacencyOf_eq, BTreeMap.get?_mapValues, hget]
        exact hreference

end ModifierPipeline

end Crpg.Rules
