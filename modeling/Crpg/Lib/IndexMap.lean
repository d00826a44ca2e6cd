import Mathlib.Data.List.Perm.Basic
import Crpg.Lib.Entries

/-!
# Insertion-ordered maps

A map iterated in insertion order: the entries are a list of pairs with distinct keys, and the
proof of that is a field. Inserting under a bound key replaces the value in place, a fresh key goes
to the end, and `shiftRemove` keeps the order of what remains. One lemma per operation says what a
lookup finds afterwards, and one what it does to the keys. `modify` is the write through a mutable
reference, `mapValues` the pass of a mutable iterator.
-/

set_option autoImplicit false

namespace Crpg.Lib

open Entries (lookup lookup_eq_none_iff lookup_eq_some_iff_mem lookup_filter lookup_map)

/-- A map with distinct keys in insertion order. -/
structure IndexMap (κ ν : Type*) where
  entries : List (κ × ν)
  nodup : (entries.map Prod.fst).Nodup

namespace IndexMap

variable {κ ν μ : Type*}

/-- The keys in iteration order. -/
def keys (map : IndexMap κ ν) : List κ := map.entries.map Prod.fst

/-- The values in iteration order. -/
def values (map : IndexMap κ ν) : List ν := map.entries.map Prod.snd

/-- The number of entries. -/
def len (map : IndexMap κ ν) : ℕ := map.entries.length

/-- The map without entries. -/
def empty : IndexMap κ ν := ⟨[], List.nodup_nil⟩

instance : Inhabited (IndexMap κ ν) := ⟨empty⟩

def isEmpty (map : IndexMap κ ν) : Bool := map.entries.isEmpty

/-- Rewrites every value in iteration order: a pass of a mutable iterator. -/
def mapValues (map : IndexMap κ ν) (transform : κ → ν → μ) : IndexMap κ μ :=
  ⟨map.entries.map fun entry ↦ (entry.1, transform entry.1 entry.2), by
    rw [List.map_map]
    exact map.nodup⟩

variable [DecidableEq κ]

instance [DecidableEq ν] : DecidableEq (IndexMap κ ν) := fun first second ↦
  decidable_of_iff (first.entries = second.entries) <| by
    cases first
    cases second
    simp

/-- The value bound to a key. -/
def get? (map : IndexMap κ ν) (key : κ) : Option ν := lookup key map.entries

/-- Whether a key is bound. -/
def contains (map : IndexMap κ ν) (key : κ) : Bool := (map.get? key).isSome

/-- `get_mut`: rewrites the value bound to a key, if there is one. -/
def modify (map : IndexMap κ ν) (key : κ) (transform : ν → ν) : IndexMap κ ν :=
  map.mapValues fun found value ↦ if found = key then transform value else value

theorem contains_eq_true_iff {map : IndexMap κ ν} {key : κ} :
    map.contains key = true ↔ key ∈ map.keys := by
  rw [contains, Option.isSome_iff_ne_none, ne_eq, get?, lookup_eq_none_iff, not_not, keys]

/-- Binds a key: in place when it is bound already, at the end when it is fresh. -/
def insert (map : IndexMap κ ν) (key : κ) (value : ν) : IndexMap κ ν :=
  if hbound : map.contains key then map.modify key fun _ ↦ value
  else ⟨map.entries ++ [(key, value)], by
    rw [List.map_append, List.nodup_append]
    refine ⟨map.nodup, List.nodup_singleton _, ?_⟩
    rintro found hfound _ hkey rfl
    rw [List.mem_singleton.mp hkey] at hfound
    exact hbound (contains_eq_true_iff.mpr hfound)⟩

/-- `shift_remove`: unbinds a key and keeps the order of the rest. -/
def shiftRemove (map : IndexMap κ ν) (key : κ) : IndexMap κ ν :=
  ⟨map.entries.filter fun entry ↦ entry.1 ≠ key,
    map.nodup.sublist (List.filter_sublist.map Prod.fst)⟩

/-- The map of a list of pairs, later pairs replacing earlier ones. -/
def ofList (pairs : List (κ × ν)) : IndexMap κ ν :=
  pairs.foldl (fun map pair ↦ map.insert pair.1 pair.2) empty

variable {map : IndexMap κ ν} {key other : κ} {value : ν}

theorem mem_entries_iff : (key, value) ∈ map.entries ↔ map.get? key = some value :=
  (lookup_eq_some_iff_mem map.nodup).symm

theorem mem_keys_iff : key ∈ map.keys ↔ ∃ value, map.get? key = some value := by
  rw [keys, List.mem_map]
  exact ⟨fun ⟨entry, hentry, hkey⟩ ↦ ⟨entry.2, mem_entries_iff.mp (hkey ▸ hentry)⟩,
    fun ⟨value, hvalue⟩ ↦ ⟨(key, value), mem_entries_iff.mpr hvalue, rfl⟩⟩

theorem mem_values_iff : value ∈ map.values ↔ ∃ key, map.get? key = some value := by
  rw [values, List.mem_map]
  exact ⟨fun ⟨entry, hentry, hvalue⟩ ↦ ⟨entry.1, mem_entries_iff.mp (hvalue ▸ hentry)⟩,
    fun ⟨key, hkey⟩ ↦ ⟨(key, value), mem_entries_iff.mpr hkey, rfl⟩⟩

theorem get?_eq_none_iff : map.get? key = none ↔ key ∉ map.keys := lookup_eq_none_iff

omit [DecidableEq κ] in
theorem nodup_keys (map : IndexMap κ ν) : map.keys.Nodup := map.nodup

/-! ### What an operation does to lookups and keys -/

theorem get?_mapValues (transform : κ → ν → μ) :
    (map.mapValues transform).get? key = (map.get? key).map (transform key) :=
  lookup_map transform map.entries

omit [DecidableEq κ] in
@[simp]
theorem keys_mapValues (transform : κ → ν → μ) : (map.mapValues transform).keys = map.keys := by
  simp [keys, mapValues, List.map_map, Function.comp_def]

theorem get?_modify (transform : ν → ν) : (map.modify key transform).get? other =
      if other = key then (map.get? other).map transform else map.get? other := by
  rw [modify, get?_mapValues]
  split_ifs with hkey
  · rfl
  · simp

theorem get?_modify_self (transform : ν → ν) :
    (map.modify key transform).get? key = (map.get? key).map transform := by
  rw [get?_modify, if_pos rfl]

@[simp]
theorem keys_modify (transform : ν → ν) : (map.modify key transform).keys = map.keys :=
  keys_mapValues _

theorem lookup_append_of_notMem {entries : List (κ × ν)} (hfresh : key ∉ entries.map Prod.fst) :
    lookup other (entries ++ [(key, value)]) =
      if other = key then some value else lookup other entries := by
  induction entries with
  | nil => rfl
  | cons head rest ih =>
    obtain ⟨found, old⟩ := head
    rw [List.map_cons, List.mem_cons, not_or] at hfresh
    simp only [List.cons_append, lookup, ih hfresh.2]
    split_ifs with hfound hkey
    · exact absurd (hkey ▸ hfound) hfresh.1
    · rfl
    · rfl
    · rfl

theorem get?_insert :
    (map.insert key value).get? other = if other = key then some value else map.get? other := by
  unfold insert
  split_ifs with hbound hkey hkey
  · obtain ⟨old, hold⟩ := mem_keys_iff.mp (contains_eq_true_iff.mp hbound)
    rw [hkey, get?_modify_self, hold, Option.map_some]
  · rw [get?_modify, if_neg hkey]
  · have hfresh : key ∉ map.entries.map Prod.fst := fun h ↦ hbound (contains_eq_true_iff.mpr h)
    exact (lookup_append_of_notMem hfresh).trans (if_pos hkey)
  · have hfresh : key ∉ map.entries.map Prod.fst := fun h ↦ hbound (contains_eq_true_iff.mpr h)
    exact (lookup_append_of_notMem hfresh).trans (if_neg hkey)

theorem keys_insert_of_mem (hbound : key ∈ map.keys) : (map.insert key value).keys = map.keys := by
  rw [insert, dif_pos (contains_eq_true_iff.mpr hbound), keys_modify]

theorem entries_insert_of_notMem (hfresh : key ∉ map.keys) :
    (map.insert key value).entries = map.entries ++ [(key, value)] := by
  rw [insert, dif_neg fun h ↦ hfresh (contains_eq_true_iff.mp h)]

theorem keys_insert_of_notMem (hfresh : key ∉ map.keys) :
    (map.insert key value).keys = map.keys ++ [key] := by
  rw [keys, entries_insert_of_notMem hfresh, List.map_append]
  rfl

theorem get?_shiftRemove :
    (map.shiftRemove key).get? other = if other = key then none else map.get? other :=
  lookup_filter map.entries

theorem keys_shiftRemove : (map.shiftRemove key).keys = map.keys.filter (· ≠ key) := by
  rw [keys, shiftRemove, keys, List.filter_map]
  rfl

theorem shiftRemove_of_notMem (habsent : key ∉ map.keys) : map.shiftRemove key = map := by
  have hentries : (map.shiftRemove key).entries = map.entries := by
    refine List.filter_eq_self.mpr fun entry hentry ↦ ?_
    refine decide_eq_true fun heq ↦ habsent ?_
    rw [← heq]
    exact List.mem_map_of_mem hentry
  cases map
  exact IndexMap.mk.injEq _ _ _ _ ▸ hentries

theorem mem_keys_insert {other : κ} :
    other ∈ (map.insert key value).keys ↔ other = key ∨ other ∈ map.keys := by
  rw [mem_keys_iff, mem_keys_iff, get?_insert]
  by_cases hother : other = key <;> simp [hother]

theorem mem_keys_shiftRemove {other : κ} :
    other ∈ (map.shiftRemove key).keys ↔ other ∈ map.keys ∧ other ≠ key := by
  rw [keys_shiftRemove, List.mem_filter]
  simp

omit [DecidableEq κ] in
theorem isEmpty_iff : map.isEmpty = true ↔ map.keys = [] := by
  rw [isEmpty, List.isEmpty_iff, keys, List.map_eq_nil_iff]

theorem entries_ofList {pairs : List (κ × ν)} (hnodup : (pairs.map Prod.fst).Nodup) :
    (ofList pairs).entries = pairs := by
  have hfold (map : IndexMap κ ν) (rest : List (κ × ν))
      (hrest : ((map.entries ++ rest).map Prod.fst).Nodup) :
      (rest.foldl (fun map pair ↦ map.insert pair.1 pair.2) map).entries = map.entries ++ rest := by
    induction rest generalizing map with
    | nil => simp
    | cons pair rest ih =>
      rw [List.foldl_cons]
      have hfresh : pair.1 ∉ map.keys := by
        rw [List.map_append, List.map_cons, List.nodup_append] at hrest
        exact fun h ↦ hrest.2.2 pair.1 h pair.1 (List.mem_cons_self ..) rfl
      have hentries : (map.insert pair.1 pair.2).entries = map.entries ++ [(pair.1, pair.2)] :=
        entries_insert_of_notMem hfresh
      rw [ih _ (by rw [hentries, List.append_assoc]; exact hrest), hentries, List.append_assoc]
      rfl
  exact hfold empty pairs hnodup

theorem ofList_entries (map : IndexMap κ ν) : ofList map.entries = map := by
  obtain ⟨entries, hnodup⟩ := map
  have hentries := entries_ofList hnodup
  generalize ofList entries = rebuilt at hentries
  obtain ⟨_, _⟩ := rebuilt
  cases hentries
  rfl

/-! ### Maps that agree key by key -/

omit [DecidableEq κ] in
/-- Two maps with the same keys in the same order, related value by value. -/
def Rel (related : ν → ν → Prop) (first second : IndexMap κ ν) : Prop :=
  List.Forall₂ (fun before after ↦ before.1 = after.1 ∧ related before.2 after.2)
    first.entries second.entries

namespace Rel

variable {related : ν → ν → Prop} {first second third : IndexMap κ ν}

omit [DecidableEq κ] in
theorem refl (hrefl : ∀ value, related value value) (map : IndexMap κ ν) : Rel related map map :=
  List.forall₂_same.mpr fun entry _ ↦ ⟨rfl, hrefl entry.2⟩

omit [DecidableEq κ] in
theorem trans (htrans : ∀ a b c, related a b → related b c → related a c)
    (hfirst : Rel related first second) (hsecond : Rel related second third) :
    Rel related first third := by
  unfold Rel at *
  generalize first.entries = before at hfirst ⊢
  generalize second.entries = middle at hfirst hsecond
  generalize third.entries = after at hsecond ⊢
  induction hfirst generalizing after with
  | nil =>
    cases hsecond
    exact List.Forall₂.nil
  | cons hhead _ ih =>
    obtain _ | ⟨hnext, hrest⟩ := hsecond
    exact List.Forall₂.cons ⟨hhead.1.trans hnext.1, htrans _ _ _ hhead.2 hnext.2⟩ (ih _ hrest)

omit [DecidableEq κ] in
theorem imp {weaker : ν → ν → Prop} (himp : ∀ a b, related a b → weaker a b)
    (hrel : Rel related first second) : Rel weaker first second :=
  List.Forall₂.imp (fun _ _ h ↦ ⟨h.1, himp _ _ h.2⟩) hrel

omit [DecidableEq κ] in
theorem keys_eq (hrel : Rel related first second) : second.keys = first.keys := by
  unfold Rel at hrel
  unfold keys
  generalize first.entries = before at hrel ⊢
  generalize second.entries = after at hrel ⊢
  induction hrel with
  | nil => rfl
  | cons hhead _ ih => rw [List.map_cons, List.map_cons, ih, hhead.1]

theorem get?_eq_some (hrel : Rel related first second) (hget : second.get? key = some value) :
    ∃ before, first.get? key = some before ∧ related before value := by
  unfold Rel at hrel
  unfold get? at *
  generalize first.entries = before at hrel ⊢
  generalize second.entries = after at hrel hget
  induction hrel with
  | nil => cases hget
  | @cons before after _ _ hhead _ ih =>
    obtain ⟨found, old⟩ := before
    obtain ⟨also, new⟩ := after
    obtain ⟨rfl, hvalue⟩ := hhead
    unfold lookup at hget ⊢
    split_ifs at hget ⊢ with hkey
    · exact ⟨old, rfl, Option.some.inj hget ▸ hvalue⟩
    · exact ih hget

theorem get?_eq_some' (hrel : Rel related first second) (hget : first.get? key = some value) :
    ∃ after, second.get? key = some after ∧ related value after := by
  have hkey : key ∈ second.keys := hrel.keys_eq ▸ mem_keys_iff.mpr ⟨value, hget⟩
  obtain ⟨after, hafter⟩ := mem_keys_iff.mp hkey
  obtain ⟨before, hbefore, hvalue⟩ := hrel.get?_eq_some hafter
  rw [hget, Option.some.injEq] at hbefore
  exact ⟨after, hafter, hbefore ▸ hvalue⟩

omit [DecidableEq κ] in
theorem mapValues (transform : κ → ν → ν) (hvalue : ∀ key value, related value (transform key value)) :
    Rel related map (map.mapValues transform) := by
  unfold Rel IndexMap.mapValues
  rw [List.forall₂_map_right_iff]
  exact List.forall₂_same.mpr fun entry _ ↦ ⟨rfl, hvalue entry.1 entry.2⟩

theorem modify (hrefl : ∀ value, related value value) (transform : ν → ν)
    (hvalue : ∀ value, map.get? key = some value → related value (transform value)) :
    Rel related map (map.modify key transform) := by
  unfold Rel IndexMap.modify IndexMap.mapValues
  rw [List.forall₂_map_right_iff]
  refine List.forall₂_same.mpr fun entry hentry ↦ ⟨rfl, ?_⟩
  dsimp only
  split_ifs with hkey
  · exact hvalue entry.2 (hkey ▸ mem_entries_iff.mp hentry)
  · exact hrefl entry.2

end Rel

end IndexMap

end Crpg.Lib
