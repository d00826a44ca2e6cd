import Crpg.Rules.Evaluation

/-!
# Queries return

The checks of a context and the queries of a pipeline return, with a value or an error: no assertion
fails in them and no loop is without end.
-/

set_option autoImplicit false

namespace Crpg.Rules

open Crpg.Core Crpg.Lib

namespace ModifierPipeline

open Result (returns_err returns_failIf returns_forM returns_ok)

variable {pipeline : ModifierPipeline} {context : QueryContext}

variable {location : String}

theorem returns_checkKind {value : StatValue} {kind : StatKind} :
    (checkKind value kind location).Returns := by
  unfold checkKind
  split
  · exact returns_err _
  · split
    · exact returns_failIf
    · exact returns_ok _

theorem returns_checkStored (entry : StatId × StatValue) : (pipeline.checkStored entry).Returns := by
  simp only [checkStored]
  split
  · exact returns_err _
  · split
    · exact returns_err _
    · exact returns_checkKind

theorem returns_checkOperand {value : StatValue} : (checkOperand value location).Returns := by
  unfold checkOperand
  split
  · exact returns_err _
  · exact returns_ok _

theorem returns_checkOpShape {op : ModOp} : (checkOpShape op location).Returns := by
  cases op with
  | set value => exact returns_checkOperand
  | add value => exact returns_checkOperand
  | multiply factor => exact returns_ok _
  | clamp lo hi => exact returns_checkOperand.bind fun _ _ ↦ returns_checkOperand

theorem returns_checkOpKind {kind : StatKind} {op : ModOp} :
    (checkOpKind kind op location).Returns := by
  cases op with
  | set value => exact returns_checkKind
  | add value =>
    simp only [checkOpKind]
    split
    · exact returns_ok _
    · exact returns_ok _
    · exact returns_err _
  | multiply factor => exact returns_ok _
  | clamp lo hi =>
    apply returns_checkKind.bind fun _ _ ↦ returns_checkKind.bind fun _ _ ↦ ?_
    split
    · exact returns_failIf
    · exact returns_failIf
    · exact returns_err _

theorem returns_checkPolicy {policy : StackingPolicy} {modifier : Modifier} {root : String} :
    (checkPolicy policy modifier root).Returns := by
  cases policy with
  | stackAll => exact returns_ok _
  | highestBonusWorstPenalty =>
    simp only [checkPolicy]
    split
    · exact returns_ok _
    · exact returns_err _
  | highestPriorityPerName => exact returns_failIf

theorem returns_targetKind {target : ModifierTarget} {root : String} :
    (pipeline.targetKind target root).Returns := by
  cases target with
  | stat id =>
    simp only [targetKind]
    split
    · exact returns_ok _
    · exact returns_err _
  | roll tag => exact returns_ok _
  | dc tag => exact returns_ok _

theorem returns_checkModifier (modifier : Modifier) : (pipeline.checkModifier modifier).Returns := by
  unfold checkModifier
  exact returns_targetKind.bind fun _ _ ↦ returns_failIf.bind fun _ _ ↦
    Result.returns_okOr.bind fun _ _ ↦ returns_failIf.bind fun _ _ ↦
    returns_failIf.bind fun _ _ ↦ returns_checkOpShape.bind fun _ _ ↦
    returns_failIf.bind fun _ _ ↦ returns_failIf.bind fun _ _ ↦
    returns_checkOpKind.bind fun _ _ ↦ returns_checkPolicy

theorem returns_checkContext : (pipeline.checkContext context).Returns := by
  unfold checkContext
  refine returns_failIf.bind fun _ _ ↦ returns_failIf.bind fun _ _ ↦
    returns_failIf.bind fun _ _ ↦
    (returns_forM returns_checkStored).bind fun _ _ ↦ ?_
  simp only
  split
  · nofun
  · exact returns_forM returns_checkModifier

theorem returns_queryNumeric {entity : EntityId} {target : ModifierTarget} {base : ℤ} :
    (pipeline.queryNumeric entity target base context).Returns := by
  unfold queryNumeric
  exact returns_failIf.bind fun _ _ ↦ returns_failIf.bind fun _ _ ↦
    returns_checkContext.bind fun _ _ ↦ returns_ok _

/-- A stat query answers as the recursion of its stat. Assumes: a valid pipeline. -/
theorem query_cases (hpipeline : ValidPipeline pipeline) {entity : EntityId} {stat : StatId} :
    (pipeline.query entity stat context).Returns ∧
      ∀ answer, pipeline.query entity stat context = .ok answer →
        Evaluates pipeline context stat answer.1 := by
  have hempty : Recorded pipeline context .empty := ⟨fun _ _ ↦ nofun, fun _ _ ↦ nofun⟩
  have hpending : Pending pipeline [] stat :=
    ⟨fun _ h ↦ absurd h List.not_mem_nil, List.nodup_nil, fun _ h ↦ absurd h List.not_mem_nil⟩
  have hfuel : pipeline.definitions.size <
      ([] : List StatId).length + (pipeline.definitions.size + 1) := by simp
  have hanswers : pipeline.definitions.contains stat = true →
      pipeline.checkContext context = .ok () → Answers pipeline context .empty stat
        (pipeline.evalStat context (pipeline.definitions.size + 1) .empty stat) := by
    intro hcontains hvalid
    rw [BTreeMap.contains, Option.isSome_iff_exists] at hcontains
    obtain ⟨definition, hdefinition⟩ := hcontains
    exact answers_evalStat hpipeline (checkContext_eq_ok_iff.mp hvalid) hpending hdefinition hfuel
      hempty
  constructor
  · unfold query
    refine returns_failIf.bind fun _ _ ↦ returns_failIf.bind fun _ hdeclared ↦
      returns_checkContext.bind fun _ hvalid ↦ Result.Returns.bind ?_ fun _ _ ↦ returns_ok _
    rw [Result.failIf_eq_ok_iff, Bool.not_eq_false] at hdeclared
    intro hpanic
    have hstuck := hanswers hdeclared hvalid
    rw [hpanic] at hstuck
    exact hstuck
  · intro answer hquery
    simp only [query, Result.bind_ok_iff, Result.failIf_eq_ok_iff, Result.pure_eq,
      Bool.not_eq_false] at hquery
    obtain ⟨_, -, _, hdeclared, _, hvalid, evaluated, hevaluated, hanswer⟩ := hquery
    cases hanswer
    have hvalue := hanswers hdeclared hvalid
    rw [hevaluated] at hvalue
    exact hvalue.1

end ModifierPipeline

end Crpg.Rules
