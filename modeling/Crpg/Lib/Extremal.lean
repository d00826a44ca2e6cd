import Mathlib.Algebra.Order.BigOperators.Group.Finset
import Mathlib.Algebra.Order.Group.Synonym
import Mathlib.Algebra.Order.Monoid.OrderDual

/-!
# Extremal sums of a ranked list

A list without repetition that ranks its members by value puts the largest sum of `n` members in
front and leaves the smallest one at the back: no `n` members sum to more than the first `n`
(`sum_le_sum_take`), and none to less than the last `n` (`sum_drop_le_sum`).
-/

set_option autoImplicit false

namespace Crpg.Lib

variable {ι M : Type*} [DecidableEq ι] [AddCommMonoid M] [PartialOrder M] [IsOrderedAddMonoid M]

theorem sum_le_sum_take {value : ι → M} {order : List ι} (hnodup : order.Nodup)
    (hranked : order.Pairwise fun first second ↦ value second ≤ value first) {chosen : Finset ι}
    (hchosen : chosen ⊆ order.toFinset) : ∑ index ∈ chosen, value index ≤
      ∑ index ∈ (order.take chosen.card).toFinset, value index := by
  induction order generalizing chosen with
  | nil =>
    rw [Finset.subset_empty.mp hchosen]
    exact le_refl _
  | cons head rest ih =>
    obtain ⟨hfresh, hnodup⟩ := List.nodup_cons.mp hnodup
    obtain ⟨hlargest, hranked⟩ := List.pairwise_cons.mp hranked
    rw [List.toFinset_cons] at hchosen
    by_cases hempty : chosen = ∅
    · rw [hempty]
      exact le_refl _
    · -- The head, or any chosen member when the head is not chosen, is worth at most the head.
      obtain ⟨pick, hpick, hpays, hothers⟩ : ∃ pick ∈ chosen, value pick ≤ value head ∧
          chosen.erase pick ⊆ rest.toFinset := by
        by_cases hhead : head ∈ chosen
        · exact ⟨head, hhead, le_refl _, Finset.subset_insert_iff.mp hchosen⟩
        · obtain ⟨pick, hpick⟩ := Finset.nonempty_iff_ne_empty.mpr hempty
          have hrest : chosen ⊆ rest.toFinset :=
            (Finset.subset_insert_iff_of_notMem hhead).mp hchosen
          exact ⟨pick, hpick, hlargest pick (List.mem_toFinset.mp (hrest hpick)),
            (Finset.erase_subset _ _).trans hrest⟩
      have hcard : chosen.card = (chosen.erase pick).card + 1 :=
        (Finset.card_erase_add_one hpick).symm
      have htake : head ∉ (rest.take (chosen.erase pick).card).toFinset := fun hmem ↦
        hfresh (List.mem_of_mem_take (List.mem_toFinset.mp hmem))
      rw [hcard, List.take_succ_cons, List.toFinset_cons, Finset.sum_insert htake,
        ← Finset.add_sum_erase chosen value hpick]
      exact add_le_add hpays (ih hnodup hranked hothers)

theorem sum_take_le_sum {value : ι → M} {order : List ι} (hnodup : order.Nodup)
    (hranked : order.Pairwise fun first second ↦ value first ≤ value second) {chosen : Finset ι}
    (hchosen : chosen ⊆ order.toFinset) : ∑ index ∈ (order.take chosen.card).toFinset, value index ≤
      ∑ index ∈ chosen, value index :=
  @sum_le_sum_take ι Mᵒᵈ _ _ _ _ (fun index ↦ OrderDual.toDual (value index)) order hnodup hranked
    chosen hchosen

/-- What a list without repetition has beyond its first members. -/
theorem toFinset_sdiff_take {order : List ι} (hnodup : order.Nodup) (count : ℕ) :
    order.toFinset \ (order.take count).toFinset = (order.drop count).toFinset := by
  have hdisjoint := List.disjoint_take_drop hnodup (le_refl count)
  ext index
  rw [Finset.mem_sdiff, List.mem_toFinset, List.mem_toFinset, List.mem_toFinset]
  constructor
  · intro ⟨hmem, hfront⟩
    rw [← List.take_append_drop count order, List.mem_append] at hmem
    exact hmem.resolve_left hfront
  · intro hback
    exact ⟨List.mem_of_mem_drop hback, fun hfront ↦ hdisjoint hfront hback⟩

/-- What a list without repetition has before its last members. -/
theorem toFinset_sdiff_drop {order : List ι} (hnodup : order.Nodup) (count : ℕ) :
    order.toFinset \ (order.drop count).toFinset = (order.take count).toFinset := by
  have hsubset : (order.take count).toFinset ⊆ order.toFinset := fun index hindex ↦
    List.mem_toFinset.mpr (List.mem_of_mem_take (List.mem_toFinset.mp hindex))
  rw [← toFinset_sdiff_take hnodup, Finset.sdiff_sdiff_eq_self hsubset]

section Drop

variable {value : ι → M} {order : List ι} (hnodup : order.Nodup) {chosen : Finset ι}
  (hchosen : chosen ⊆ order.toFinset)

omit [DecidableEq ι] in
theorem drop_eq_reverse_take (order : List ι) (count : ℕ) :
    order.drop (order.length - count) = (order.reverse.take count).reverse := by
  rw [List.take_reverse, List.reverse_reverse]

include hnodup hchosen

/-- The last members of a descending list have the smallest sum of their number. -/
theorem sum_drop_le_sum (hranked : order.Pairwise fun first second ↦ value second ≤ value first) :
    ∑ index ∈ (order.drop (order.length - chosen.card)).toFinset, value index ≤
      ∑ index ∈ chosen, value index := by
  rw [drop_eq_reverse_take, List.toFinset_reverse]
  apply sum_take_le_sum (List.nodup_reverse.mpr hnodup) (List.pairwise_reverse.mpr hranked)
  rw [List.toFinset_reverse]
  exact hchosen

/-- The last members of an ascending list have the largest sum of their number. -/
theorem sum_le_sum_drop (hranked : order.Pairwise fun first second ↦ value first ≤ value second) :
    ∑ index ∈ chosen, value index ≤
      ∑ index ∈ (order.drop (order.length - chosen.card)).toFinset, value index := by
  rw [drop_eq_reverse_take, List.toFinset_reverse]
  apply sum_le_sum_take (List.nodup_reverse.mpr hnodup) (List.pairwise_reverse.mpr hranked)
  rw [List.toFinset_reverse]
  exact hchosen

end Drop

end Crpg.Lib
