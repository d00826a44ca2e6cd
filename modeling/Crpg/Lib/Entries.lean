import Mathlib.Data.List.Basic
import Mathlib.Data.List.Nodup

/-!
# Lists of entries

Looking a key up in a list of pairs, which is what ordered and insertion-ordered maps have in
common. With distinct keys a lookup finds exactly the pairs of the list.
-/

set_option autoImplicit false

namespace Crpg.Lib.Entries

variable {κ ν μ : Type*} [DecidableEq κ]

def lookup (key : κ) : List (κ × ν) → Option ν
  | [] => none
  | (found, value) :: rest => if key = found then some value else lookup key rest

variable {key other : κ} {value : ν} {entries : List (κ × ν)}

theorem lookup_eq_none_iff : lookup key entries = none ↔ key ∉ entries.map Prod.fst := by
  induction entries with
  | nil => simp [lookup]
  | cons head rest ih =>
    obtain ⟨found, value⟩ := head
    simp only [lookup, List.map_cons, List.mem_cons, not_or]
    split_ifs with hkey
    · simp [hkey]
    · simp [hkey, ih]

theorem lookup_eq_some_iff_mem (hnodup : (entries.map Prod.fst).Nodup) :
    lookup key entries = some value ↔ (key, value) ∈ entries := by
  induction entries with
  | nil => simp [lookup]
  | cons head rest ih =>
    obtain ⟨found, old⟩ := head
    rw [List.map_cons, List.nodup_cons] at hnodup
    simp only [lookup, List.mem_cons, Prod.mk.injEq]
    split_ifs with hkey
    · subst hkey
      have hrest : (key, value) ∉ rest := fun h ↦ hnodup.1 (List.mem_map.mpr ⟨_, h, rfl⟩)
      simp [hrest, eq_comm]
    · simp [hkey, ih hnodup.2]

theorem lookup_map (transform : κ → ν → μ) (entries : List (κ × ν)) :
    lookup key (entries.map fun entry ↦ (entry.1, transform entry.1 entry.2)) =
      (lookup key entries).map (transform key) := by
  induction entries with
  | nil => rfl
  | cons head rest ih =>
    obtain ⟨found, old⟩ := head
    simp only [List.map_cons, lookup]
    split_ifs with hkey
    · rw [hkey, Option.map_some]
    · exact ih

theorem lookup_filter (entries : List (κ × ν)) :
    lookup other (entries.filter fun entry ↦ entry.1 ≠ key) =
      if other = key then none else lookup other entries := by
  induction entries with
  | nil => simp [lookup]
  | cons head rest ih =>
    obtain ⟨found, old⟩ := head
    by_cases hfound : found = key
    · rw [List.filter_cons_of_neg (by simpa using hfound), ih]
      split_ifs with hkey
      · rfl
      · rw [lookup, if_neg (hfound ▸ hkey)]
    · rw [List.filter_cons_of_pos (by simpa using hfound), lookup, ih, lookup]
      split_ifs with hkey hother
      · exact absurd (hkey ▸ hother) hfound
      · rfl
      · rfl
      · rfl

end Crpg.Lib.Entries
