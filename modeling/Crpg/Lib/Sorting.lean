import Mathlib.Data.List.Sort

/-!
# Sorting by a key

A list sorted by a key has one arrangement when its keys are distinct, so a program that sorts its
input by such a key cannot see the order the input came in. The same goes for the first element of a
sorted list that passes a test, and for a greatest element of a total preorder.
-/

set_option autoImplicit false

namespace Crpg.Lib

variable {α κ : Type*}

/-- Distinct keys tell elements apart. -/
theorem eq_of_key_eq {key : α → κ} {items : List α} (hnodup : (items.map key).Nodup)
    {first second : α} (hfirst : first ∈ items) (hsecond : second ∈ items)
    (hkey : key first = key second) : first = second :=
  List.inj_on_of_nodup_map hnodup hfirst hsecond hkey

variable [LinearOrder κ]

theorem pairwise_insertionSort_key (key : α → κ) (items : List α) :
    (items.insertionSort fun first second ↦ key first ≤ key second).Pairwise
      fun first second ↦ key first ≤ key second := by
  have htotal : Std.Total (fun first second : α ↦ key first ≤ key second) :=
    ⟨fun first second ↦ le_total (key first) (key second)⟩
  have htrans : IsTrans α (fun first second : α ↦ key first ≤ key second) :=
    ⟨fun _ _ _ hfirst hsecond ↦ hfirst.trans hsecond⟩
  exact List.pairwise_insertionSort _ items

theorem insertionSort_eq_of_perm {key : α → κ} {first second : List α} (hperm : first.Perm second)
    (hnodup : (first.map key).Nodup) : first.insertionSort (fun a b ↦ key a ≤ key b) =
      second.insertionSort (fun a b ↦ key a ≤ key b) := by
  have hsorted := (List.perm_insertionSort (fun a b : α ↦ key a ≤ key b) first).trans
    (hperm.trans (List.perm_insertionSort (fun a b : α ↦ key a ≤ key b) second).symm)
  apply hsorted.eq_of_pairwise ?_ (pairwise_insertionSort_key key first)
    (pairwise_insertionSort_key key second)
  intro a b ha hb hab hba
  rw [List.mem_insertionSort] at ha hb
  exact eq_of_key_eq hnodup ha (hperm.mem_iff.mpr hb) (le_antisymm hab hba)

theorem insertionSort_eq_of_perm_keys {first second : List κ} (hperm : first.Perm second) :
    first.insertionSort (· ≤ ·) = second.insertionSort (· ≤ ·) := by
  have hsorted := (List.perm_insertionSort (fun a b : κ ↦ a ≤ b) first).trans
    (hperm.trans (List.perm_insertionSort (fun a b : κ ↦ a ≤ b) second).symm)
  exact hsorted.eq_of_pairwise (fun _ _ _ _ hab hba ↦ le_antisymm hab hba)
    (pairwise_insertionSort_key (fun a ↦ a) first) (pairwise_insertionSort_key (fun a ↦ a) second)

/-- Lists that ascend strictly by a key and have the same elements are equal. -/
theorem eq_of_pairwise_key_lt {key : α → κ} {first second : List α}
    (hfirst : first.Pairwise fun a b ↦ key a < key b)
    (hsecond : second.Pairwise fun a b ↦ key a < key b)
    (hmem : ∀ item, item ∈ first ↔ item ∈ second) : first = second := by
  have hnodup : ∀ items : List α, (items.Pairwise fun a b ↦ key a < key b) → items.Nodup :=
    fun items hitems ↦ hitems.imp fun hlt heq ↦ absurd (heq ▸ hlt) (lt_irrefl _)
  have hperm := (List.perm_ext_iff_of_nodup (hnodup first hfirst) (hnodup second hsecond)).mpr hmem
  exact hperm.eq_of_pairwise (fun a b _ _ hab hba ↦ absurd hab (not_lt.mpr hba.le)) hfirst hsecond

theorem key_lt_of_mem_zip_tail {key : α → κ} {items : List α}
    (hitems : items.Pairwise fun a b ↦ key a < key b) {pair : α × α}
    (hpair : pair ∈ items.zip items.tail) : key pair.1 < key pair.2 := by
  induction items with
  | nil => exact absurd hpair List.not_mem_nil
  | cons head rest ih =>
    cases rest with
    | nil => exact absurd hpair List.not_mem_nil
    | cons second rest =>
      rw [List.tail_cons, List.zip_cons_cons, List.mem_cons] at hpair
      rcases hpair with rfl | hpair
      · exact List.rel_of_pairwise_cons hitems List.mem_cons_self
      · exact ih hitems.of_cons hpair

theorem key_le_of_find? {key : α → κ} {items : List α} {test : α → Bool} {found other : α}
    (hitems : items.Pairwise fun a b ↦ key a < key b) (hfind : items.find? test = some found)
    (hother : other ∈ items) (htest : test other = true) : key found ≤ key other := by
  obtain ⟨-, before, after, rfl, hbefore⟩ := List.find?_eq_some_iff_append.mp hfind
  rw [List.mem_append, List.mem_cons] at hother
  rcases hother with hother | rfl | hother
  · have hfails := hbefore other hother
    rw [htest] at hfails
    exact absurd hfails Bool.false_ne_true
  · exact le_rfl
  · exact (List.rel_of_pairwise_cons (List.pairwise_append.mp hitems).2.1 hother).le

/-! ### Greatest elements -/

/-- The last of the greatest elements of a list. -/
def maxBy (order : α → α → Ordering) : List α → Option α
  | [] => none
  | head :: rest =>
    some (rest.foldl (fun best item ↦ if order best item = .gt then best else item) head)

section MaxBy

variable {order : α → α → Ordering}

/-- The fold of a total preorder ends with an element that no other exceeds. -/
theorem foldl_maxBy_greatest (hswap : ∀ a b, (order a b).swap = order b a)
    (htrans : ∀ a b c, order a b ≠ .gt → order b c ≠ .gt → order a c ≠ .gt) (items : List α)
    (head : α) :
    let last := items.foldl (fun best item ↦ if order best item = .gt then best else item) head
    last ∈ head :: items ∧ ∀ item ∈ head :: items, order item last ≠ .gt := by
  have hrefl : ∀ a, order a a ≠ .gt := by
    intro a hgt
    have hself := hswap a a
    rw [hgt] at hself
    exact absurd hself (by decide)
  induction items generalizing head with
  | nil =>
    refine ⟨List.mem_singleton_self head, fun item hitem ↦ ?_⟩
    rw [List.mem_singleton.mp hitem]
    exact hrefl head
  | cons item rest ih =>
    obtain ⟨hmem, hgreatest⟩ := ih (if order head item = .gt then head else item)
    intro last
    have hnext := hgreatest _ List.mem_cons_self
    by_cases hgt : order head item = .gt
    · have hback : order item head ≠ .gt := by
        rw [← hswap head item, hgt]
        decide
      rw [if_pos hgt] at hmem hgreatest hnext
      have hlast : last = rest.foldl
          (fun best item ↦ if order best item = .gt then best else item) head := by
        show List.foldl _ (if order head item = .gt then head else item) rest = _
        rw [if_pos hgt]
      rw [hlast]
      refine ⟨?_, fun other hother ↦ ?_⟩
      · rcases List.mem_cons.mp hmem with hmem | hmem
        · exact List.mem_cons.mpr (.inl hmem)
        · exact List.mem_cons_of_mem _ (List.mem_cons_of_mem _ hmem)
      · rcases List.mem_cons.mp hother with rfl | hother
        · exact hnext
        · rcases List.mem_cons.mp hother with rfl | hother
          · exact htrans _ _ _ hback hnext
          · exact hgreatest other (List.mem_cons_of_mem _ hother)
    · rw [if_neg hgt] at hmem hgreatest hnext
      have hlast : last = rest.foldl
          (fun best item ↦ if order best item = .gt then best else item) item := by
        show List.foldl _ (if order head item = .gt then head else item) rest = _
        rw [if_neg hgt]
      rw [hlast]
      refine ⟨List.mem_cons_of_mem _ hmem, fun other hother ↦ ?_⟩
      rcases List.mem_cons.mp hother with rfl | hother
      · exact htrans _ _ _ hgt hnext
      · exact hgreatest other hother

theorem maxBy_eq_none_iff {items : List α} : maxBy order items = none ↔ items = [] := by
  cases items with
  | nil => exact iff_of_true rfl rfl
  | cons head rest => exact iff_of_false (Option.some_ne_none _) (List.cons_ne_nil _ _)

/-- The greatest element is one of the list, and no other exceeds it. -/
theorem maxBy_spec (hswap : ∀ a b, (order a b).swap = order b a)
    (htrans : ∀ a b c, order a b ≠ .gt → order b c ≠ .gt → order a c ≠ .gt) {items : List α}
    {best : α} (hbest : maxBy order items = some best) :
    best ∈ items ∧ ∀ item ∈ items, order item best ≠ .gt := by
  cases items with
  | nil => exact nomatch hbest
  | cons head rest =>
    rw [← Option.some.inj hbest]
    exact foldl_maxBy_greatest hswap htrans rest head

end MaxBy

end Crpg.Lib
