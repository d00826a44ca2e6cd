import Mathlib.Order.Lattice
import Mathlib.Data.List.Basic

/-!
# Binary search

The search of a slice whose keys ascend strictly: the interval halves without an early exit, and
one comparison at the end decides. `binarySearch_eq_some_iff` says that it finds the position of a
key exactly when the key is there.
-/

set_option autoImplicit false

namespace Crpg.Lib

variable {α κ : Type*} [LinearOrder κ]

/-- Narrows the interval of `size` elements from `base` on to one element, keeping the lower half
when its upper neighbour is already beyond the target. -/
def searchBase (key : α → κ) (list : List α) (target : κ) : ℕ → ℕ → ℕ → ℕ
  | 0, base, _ => base
  | fuel + 1, base, size =>
    if 1 < size then
      let half := size / 2
      let beyond := (list[base + half]?).any fun item ↦ target < key item
      searchBase key list target fuel (if beyond then base else base + half) (size - half)
    else base

/-- The position of the element with a key. -/
def binarySearch (key : α → κ) (list : List α) (target : κ) : Option ℕ :=
  let base := searchBase key list target list.length 0 list.length
  if (list[base]?).any fun item ↦ key item = target then some base else none

/-- The interval always holds the target if it held it at the start. Assumes: strictly ascending
keys, an interval inside the list, the target at a position in it, and its first element not
beyond the target. -/
theorem searchBase_eq {key : α → κ} {list : List α} {target : κ}
    (hascending : list.Pairwise fun first second ↦ key first < key second)
    {position : ℕ} {item : α} (hitem : list[position]? = some item) (hkey : key item = target)
    (fuel base size : ℕ) (hfuel : size ≤ fuel + 1) (hpositive : 0 < size)
    (hbelow : base ≤ position) (habove : position < base + size)
    (hinside : base + size ≤ list.length) :
    searchBase key list target fuel base size = position := by
  induction fuel generalizing base size with
  | zero =>
    rw [searchBase]
    omega
  | succ fuel ih =>
    rw [searchBase]
    split_ifs with hsize
    · have hhalf : size / 2 < size := Nat.div_lt_self hpositive (by omega)
      have hhalfPositive : 0 < size / 2 := by omega
      obtain ⟨middle, hmiddle⟩ : ∃ middle, list[base + size / 2]? = some middle :=
        ⟨_, List.getElem?_eq_getElem (by omega)⟩
      obtain ⟨hposition, rfl⟩ := List.getElem?_eq_some_iff.mp hitem
      obtain ⟨hmid, rfl⟩ := List.getElem?_eq_some_iff.mp hmiddle
      have horder := List.pairwise_iff_getElem.mp hascending
      simp only [hmiddle, Option.any_some]
      by_cases hbeyond : target < key list[base + size / 2]
      · have hlt : position < base + size / 2 := by
          by_contra hge
          rcases Nat.lt_or_eq_of_le (Nat.le_of_not_lt hge) with hafter | hsame
          · exact absurd (horder _ _ hmid hposition hafter) (not_lt.mpr (hkey ▸ le_of_lt hbeyond))
          · subst hsame
            exact absurd hkey (ne_of_gt hbeyond)
        simp only [hbeyond, decide_true, if_true]
        exact ih base (size - size / 2) (by omega) (by omega) hbelow (by omega) (by omega)
      · have hge : base + size / 2 ≤ position := by
          by_contra hlt
          exact hbeyond (hkey ▸ horder _ _ hposition hmid (Nat.lt_of_not_le hlt))
        simp only [hbeyond, decide_false, Bool.false_eq_true, if_false]
        exact ih (base + size / 2) (size - size / 2) (by omega) (by omega) hge (by omega)
          (by omega)
    · omega

theorem exists_of_binarySearch {key : α → κ} {list : List α} {target : κ} {position : ℕ}
    (hfound : binarySearch key list target = some position) :
    ∃ item, list[position]? = some item ∧ key item = target := by
  unfold binarySearch at hfound
  simp only at hfound
  split_ifs at hfound with hmatch
  rw [Option.some.injEq] at hfound
  rw [hfound, Option.any_eq_true] at hmatch
  obtain ⟨item, hitem, hkey⟩ := hmatch
  exact ⟨item, hitem, by simpa using hkey⟩

/-- The search finds a position exactly when the element there has the key. Assumes: strictly
ascending keys. -/
theorem binarySearch_eq_some_iff {key : α → κ} {list : List α} {target : κ}
    (hascending : list.Pairwise fun first second ↦ key first < key second) {position : ℕ} :
    binarySearch key list target = some position ↔
      ∃ item, list[position]? = some item ∧ key item = target := by
  constructor
  · exact exists_of_binarySearch
  · rintro ⟨item, hitem, hkey⟩
    have hlt : position < list.length := (List.getElem?_eq_some_iff.mp hitem).1
    have hbase := searchBase_eq hascending hitem hkey list.length 0 list.length (by omega)
      (by omega) (Nat.zero_le _) (by omega) (by omega)
    unfold binarySearch
    simp only
    rw [hbase, hitem]
    simp [hkey]

end Crpg.Lib
