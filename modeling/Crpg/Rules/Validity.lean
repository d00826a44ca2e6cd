import Crpg.Lib.Sorting
import Crpg.Rules.Modifier

/-!
# Validated contexts

What `check_context` establishes, as a structure: the limits, every stored value of its declared
kind, modifiers with distinct identities, and every modifier fit for its target and its policy. The
results about queries are stated for contexts that carry it, and `checkContext_eq_ok_iff` says the
check accepts exactly these.
-/

set_option autoImplicit false

namespace Crpg.Rules

open Crpg.Core Crpg.Lib

/-! ### Repetitions -/

theorem firstDuplicate_eq_none_iff {α : Type*} [LinearOrder α] {items : List α}
    (hsorted : items.Pairwise (· ≤ ·)) : firstDuplicate items = none ↔ items.Nodup := by
  induction items with
  | nil => simp [firstDuplicate]
  | cons first rest ih =>
    cases rest with
    | nil => simp [firstDuplicate]
    | cons second rest =>
      rw [List.pairwise_cons] at hsorted
      rw [firstDuplicate, List.nodup_cons]
      by_cases hsame : first = second
      · rw [if_pos hsame]
        simp [hsame]
      · rw [if_neg hsame, ih hsorted.2]
        have hfresh : first ∉ second :: rest := by
          intro hmem
          rw [List.mem_cons] at hmem
          obtain heq | hlater := hmem
          · exact hsame heq
          · have hle := (List.pairwise_cons.mp hsorted.2).1 first hlater
            exact hsame (le_antisymm (hsorted.1 second (List.mem_cons_self ..)) hle)
        simp [hfresh]

/-- Sorted identities show a repetition exactly when there is one. -/
theorem firstDuplicate_sorted_iff {α : Type*} [LinearOrder α] (items : List α) :
    firstDuplicate (items.insertionSort (· ≤ ·)) = none ↔ items.Nodup := by
  rw [firstDuplicate_eq_none_iff (pairwise_insertionSort_key (fun item : α ↦ item) items)]
  exact (List.perm_insertionSort (fun a b : α ↦ a ≤ b) items).nodup_iff

namespace ModifierPipeline

variable {pipeline : ModifierPipeline} {context : QueryContext} {modifier : Modifier}

/-! ### Modifiers -/

/-- What `check_modifier` establishes of a modifier, with the kind of its target and the policy of
its type. -/
structure ValidModifier (pipeline : ModifierPipeline) (modifier : Modifier) (kind : StatKind)
    (stacking : StackingPolicy) : Prop where
  target : pipeline.targetKind modifier.target ("/modifiers/" ++ ulidText modifier.id) = .ok kind
  policy : pipeline.policies.get? modifier.modType = some stacking
  supported : supports kind modifier.op = true
  operands : checkOpKind kind modifier.op ("/modifiers/" ++ ulidText modifier.id ++ "/op") = .ok ()
  fits : checkPolicy stacking modifier ("/modifiers/" ++ ulidText modifier.id) = .ok ()

theorem validModifier_of_checkModifier (hcheck : pipeline.checkModifier modifier = .ok ()) :
    ∃ kind stacking, ValidModifier pipeline modifier kind stacking := by
  simp only [checkModifier, Result.bind_ok_iff, Result.failIf_eq_ok_iff, Result.okOr_eq_ok_iff,
    exists_const] at hcheck
  obtain ⟨kind, htarget, -, stacking, hpolicy, -, -, _, -, -, hsupported, _, hoperands, hfits⟩ :=
    hcheck
  rw [Bool.not_eq_false] at hsupported
  exact ⟨kind, stacking, htarget, hpolicy, hsupported, hoperands, hfits⟩

namespace ValidModifier

variable {kind : StatKind} {stacking : StackingPolicy}

/-- Under the policy of bonuses and penalties every operation is an addition. -/
theorem isAdd (hvalid : ValidModifier pipeline modifier kind .highestBonusWorstPenalty) :
    ∃ value, modifier.op = .add value := by
  have hfits := hvalid.fits
  simp only [checkPolicy] at hfits
  split at hfits
  · rename_i value hop
    exact ⟨value, hop⟩
  · cases hfits

theorem hasName (hvalid : ValidModifier pipeline modifier kind .highestPriorityPerName) :
    ∃ name, modifier.name = some name := by
  have hfits := hvalid.fits
  simp only [checkPolicy, Result.failIf_eq_ok_iff] at hfits
  exact Option.ne_none_iff_exists'.mp hfits

theorem add_kind (hvalid : ValidModifier pipeline modifier kind stacking) {value : StatValue}
    (hop : modifier.op = .add value) : (∃ amount, kind = .int ∧ value = .int amount) ∨
      ∃ amount, kind = .fixed ∧ value = .fixed amount := by
  have hoperands := hvalid.operands
  rw [hop] at hoperands
  simp only [checkOpKind] at hoperands
  split at hoperands
  · rename_i amount
    exact Or.inl ⟨amount, rfl, rfl⟩
  · rename_i amount
    exact Or.inr ⟨amount, rfl, rfl⟩
  · cases hoperands

/-- The operands of an operation on an integer are integers, and a clamp's bounds are ordered. -/
theorem int_operands (hvalid : ValidModifier pipeline modifier .int stacking) :
    (∃ value, modifier.op = .set (.int value)) ∨ (∃ amount, modifier.op = .add (.int amount)) ∨
      (∃ factor, modifier.op = .multiply factor) ∨
      ∃ lo hi, modifier.op = .clamp (.int lo) (.int hi) ∧ lo ≤ hi := by
  have hoperands := hvalid.operands
  cases hop : modifier.op with
  | set value =>
    rw [hop] at hoperands
    cases value with
    | int value => exact Or.inl ⟨value, rfl⟩
    | fixed value => cases hoperands
    | bool value => cases hoperands
    | enum value => cases hoperands
    | tags value => cases hoperands
    | dice value => cases hoperands
  | add value =>
    obtain ⟨amount, -, rfl⟩ | ⟨amount, hkind, -⟩ := hvalid.add_kind hop
    · exact Or.inr (Or.inl ⟨amount, rfl⟩)
    · cases hkind
  | multiply factor => exact Or.inr (Or.inr (Or.inl ⟨factor, rfl⟩))
  | clamp lo hi =>
    rw [hop] at hoperands
    simp only [checkOpKind, Result.bind_eq_ok_iff] at hoperands
    obtain ⟨_, hlo, _, hhi, hordered⟩ := hoperands
    split at hordered
    · rename_i lo hi
      rw [Result.failIf_eq_ok_iff, not_not] at hordered
      exact Or.inr (Or.inr (Or.inr ⟨lo, hi, rfl, hordered⟩))
    · rename_i lo hi
      cases hlo
    · cases hordered

end ValidModifier

theorem checkModifier_retarget {target : ModifierTarget}
    (hkind : ∀ root, pipeline.targetKind target root = pipeline.targetKind modifier.target root) :
    pipeline.checkModifier { modifier with target := target } = pipeline.checkModifier modifier := by
  unfold checkModifier
  simp only [hkind]
  rfl

/-! ### Contexts -/

/-- What `check_context` establishes. -/
structure ValidContext (pipeline : ModifierPipeline) (context : QueryContext) : Prop where
  stats_le : context.stats.len ≤ maxStats
  tags_le : context.tags.card ≤ maxTags
  modifiers_le : context.modifiers.length ≤ maxModifiers
  stored : ∀ entry ∈ context.stats.entries, pipeline.checkStored entry = .ok ()
  nodup : (context.modifiers.map Modifier.id).Nodup
  modifiers : ∀ modifier ∈ context.modifiers, pipeline.checkModifier modifier = .ok ()

theorem checkContext_eq_ok_iff :
    pipeline.checkContext context = .ok () ↔ ValidContext pipeline context := by
  simp only [checkContext, Result.bind_ok_iff, Result.failIf_eq_ok_iff, exists_const, not_lt]
  constructor
  · rintro ⟨hstats, htags, hmodifiers, ⟨⟩, hstored, hchecked⟩
    rw [Result.forM_eq_ok_iff] at hstored
    split at hchecked
    · cases hchecked
    · rename_i hnone
      rw [Result.forM_eq_ok_iff] at hchecked
      refine ⟨hstats, htags, hmodifiers, fun entry hentry ↦ ?_,
        (firstDuplicate_sorted_iff _).mp hnone, fun modifier hmodifier ↦ ?_⟩
      · exact hstored entry ((List.mem_insertionSort _).mpr hentry)
      · exact hchecked modifier ((List.mem_insertionSort _).mpr hmodifier)
  · intro hvalid
    refine ⟨hvalid.stats_le, hvalid.tags_le, hvalid.modifiers_le, (), ?_, ?_⟩
    · rw [Result.forM_eq_ok_iff]
      intro entry hentry
      exact hvalid.stored entry ((List.mem_insertionSort _).mp hentry)
    · rw [(firstDuplicate_sorted_iff _).mpr hvalid.nodup]
      rw [Result.forM_eq_ok_iff]
      intro modifier hmodifier
      exact hvalid.modifiers modifier ((List.mem_insertionSort _).mp hmodifier)

namespace ValidContext

theorem validModifier (hvalid : ValidContext pipeline context)
    (hmodifier : modifier ∈ context.modifiers) :
    ∃ kind stacking, ValidModifier pipeline modifier kind stacking :=
  validModifier_of_checkModifier (hvalid.modifiers modifier hmodifier)

/-- The modifiers of a target, in order of application: their keys ascend strictly. -/
theorem nodup_targeting (hvalid : ValidContext pipeline context) (target : ModifierTarget) :
    ((targetingOf context.modifiers target).map Modifier.id).Nodup := by
  have hperm := (List.perm_insertionSort (fun first second : Modifier ↦ first.key ≤ second.key)
    (context.modifiers.filter fun modifier ↦ modifier.target = target)).map Modifier.id
  apply hperm.nodup_iff.mpr
  exact hvalid.nodup.sublist (List.filter_sublist.map _)

theorem mem_targeting {target : ModifierTarget} : modifier ∈ targetingOf context.modifiers target ↔
      modifier ∈ context.modifiers ∧ modifier.target = target := by
  simp only [targetingOf, List.mem_insertionSort, List.mem_filter, decide_eq_true_eq]

end ValidContext

end ModifierPipeline

end Crpg.Rules
