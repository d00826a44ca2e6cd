import Mathlib.Order.Defs.LinearOrder
import Mathlib.Algebra.BigOperators.Group.List.Basic
import Mathlib.Algebra.Order.Group.Nat
import Mathlib.Algebra.GroupWithZero.Nat
import Mathlib.Data.List.Perm.Basic
import Crpg.Lib.Entries

/-!
# Ordered maps

A map with ordered keys, iterated in ascending key order: the entries are a list of pairs whose
keys ascend strictly, and the proof of that is a field, so every map is canonical. Two maps with
the same lookups are equal (`BTreeMap.ext_get?`), and one lemma per operation says what a lookup
finds afterwards (`get?_insert`, `get?_erase`, `get?_filter`, `get?_map`).

`BTreeMap.sum` adds a weight over the values. `sum_insert` and `sum_erase` say how a total moves
when one binding does, which is what a byte or frame counter over a map must mirror.
-/

set_option autoImplicit false

namespace Crpg.Lib

open Entries (lookup lookup_eq_some_iff_mem lookup_map)
open List (foldl_cons map_cons mem_cons mem_cons_of_mem mem_map pairwise_cons sum_cons)

structure BTreeMap (κ ν : Type*) [LinearOrder κ] where
  entries : List (κ × ν)
  ascending : entries.Pairwise fun first second ↦ first.1 < second.1

namespace BTreeMap

variable {κ ν μ : Type*} [LinearOrder κ]

/-! ### Lists of entries -/

def insertEntry (key : κ) (value : ν) : List (κ × ν) → List (κ × ν)
  | [] => [(key, value)]
  | (found, old) :: rest =>
    if key < found then (key, value) :: (found, old) :: rest
    else if key = found then (key, value) :: rest
    else (found, old) :: insertEntry key value rest

variable {key : κ} {value : ν} {entries : List (κ × ν)}

theorem mem_insertEntry {entry : κ × ν} (hentry : entry ∈ insertEntry key value entries) :
    entry = (key, value) ∨ entry ∈ entries := by
  induction entries with
  | nil => exact Or.inl (List.mem_singleton.mp hentry)
  | cons head rest ih =>
    obtain ⟨found, old⟩ := head
    unfold insertEntry at hentry
    split_ifs at hentry with hlt heq
    · exact mem_cons.mp hentry
    · exact (mem_cons.mp hentry).imp_right (mem_cons_of_mem _)
    · rcases mem_cons.mp hentry with rfl | hrest
      · exact Or.inr (List.mem_cons_self ..)
      · exact (ih hrest).imp_right (mem_cons_of_mem _)

theorem pairwise_insertEntry (key : κ) (value : ν)
    (hascending : entries.Pairwise fun first second ↦ first.1 < second.1) :
    (insertEntry key value entries).Pairwise fun first second ↦ first.1 < second.1 := by
  induction entries with
  | nil => exact List.pairwise_singleton _ _
  | cons head rest ih =>
    obtain ⟨found, old⟩ := head
    obtain ⟨hhead, hrest⟩ := pairwise_cons.mp hascending
    unfold insertEntry
    split_ifs with hlt heq
    · refine pairwise_cons.mpr ⟨fun entry hentry ↦ ?_, hascending⟩
      rcases mem_cons.mp hentry with rfl | hlater
      · exact hlt
      · exact lt_trans hlt (hhead entry hlater)
    · exact pairwise_cons.mpr ⟨fun entry hentry ↦ heq ▸ hhead entry hentry, hrest⟩
    · refine pairwise_cons.mpr ⟨fun entry hentry ↦ ?_, ih hrest⟩
      rcases mem_insertEntry hentry with rfl | hlater
      · exact lt_of_le_of_ne (not_lt.mp hlt) (Ne.symm heq)
      · exact hhead entry hlater

theorem lookup_insertEntry (key other : κ) (value : ν) (entries : List (κ × ν)) :
    lookup other (insertEntry key value entries) =
      if other = key then some value else lookup other entries := by
  induction entries with
  | nil => rfl
  | cons head rest ih =>
    obtain ⟨found, old⟩ := head
    unfold insertEntry
    by_cases hother : other = key
    · subst hother
      rw [if_pos rfl] at ih ⊢
      split_ifs with hlt heq
      · simp [lookup]
      · simp [lookup]
      · simp [lookup, heq, ih]
    · rw [if_neg hother] at ih ⊢
      split_ifs with hlt heq
      · simp [lookup, hother]
      · simp [lookup, hother, ← heq]
      · simp only [lookup, ih]

theorem lookup_eq_none_of_lt (hbelow : ∀ entry ∈ entries, key < entry.1) :
    lookup key entries = none := by
  induction entries with
  | nil => rfl
  | cons head rest ih =>
    obtain ⟨found, old⟩ := head
    have hne : key ≠ found := ne_of_lt (hbelow (found, old) (List.mem_cons_self ..))
    rw [lookup, if_neg hne]
    exact ih fun entry hentry ↦ hbelow entry (mem_cons_of_mem _ hentry)

theorem nodup_fst (hascending : entries.Pairwise fun first second ↦ first.1 < second.1) :
    (entries.map Prod.fst).Nodup :=
  List.pairwise_map.mpr (hascending.imp ne_of_lt)

/-! ### Maps -/

def empty : BTreeMap κ ν := ⟨[], List.Pairwise.nil⟩

instance : Inhabited (BTreeMap κ ν) := ⟨empty⟩

instance [DecidableEq κ] [DecidableEq ν] : DecidableEq (BTreeMap κ ν) := fun first second ↦
  decidable_of_iff (first.entries = second.entries)
    ⟨fun h ↦ by cases first; cases second; cases h; rfl, fun h ↦ h ▸ rfl⟩

/-- The value a key is bound to. -/
def get? (map : BTreeMap κ ν) (key : κ) : Option ν := lookup key map.entries

/-- Whether a key is bound. -/
def contains (map : BTreeMap κ ν) (key : κ) : Bool := (map.get? key).isSome

def insert (map : BTreeMap κ ν) (key : κ) (value : ν) : BTreeMap κ ν :=
  ⟨insertEntry key value map.entries, pairwise_insertEntry key value map.ascending⟩

def filter (map : BTreeMap κ ν) (test : κ → ν → Bool) : BTreeMap κ ν :=
  ⟨map.entries.filter fun entry ↦ test entry.1 entry.2, map.ascending.filter _⟩

def erase (map : BTreeMap κ ν) (key : κ) : BTreeMap κ ν :=
  map.filter fun found _ ↦ found ≠ key

def mapValues (map : BTreeMap κ ν) (transform : κ → ν → μ) : BTreeMap κ μ :=
  ⟨map.entries.map fun entry ↦ (entry.1, transform entry.1 entry.2),
    List.pairwise_map.mpr map.ascending⟩

/-- The keys in ascending order. -/
def keys (map : BTreeMap κ ν) : List κ := map.entries.map Prod.fst

/-- The values in ascending key order. -/
def values (map : BTreeMap κ ν) : List ν := map.entries.map Prod.snd

/-- The number of bindings. -/
def size (map : BTreeMap κ ν) : ℕ := map.entries.length

def ofList (pairs : List (κ × ν)) : BTreeMap κ ν :=
  pairs.foldl (fun map pair ↦ map.insert pair.1 pair.2) empty

variable (map : BTreeMap κ ν)

theorem mem_entries_iff : (key, value) ∈ map.entries ↔ map.get? key = some value :=
  (lookup_eq_some_iff_mem (nodup_fst map.ascending)).symm

/-- Maps with the same lookups are equal. -/
theorem ext_get? {first second : BTreeMap κ ν} (hget : ∀ key, first.get? key = second.get? key) :
    first = second := by
  obtain ⟨entries, hfirst⟩ := first
  obtain ⟨others, hsecond⟩ := second
  have hentries : entries = others := by
    refine List.Perm.eq_of_pairwise (fun a b _ _ hab hba ↦ absurd hab (not_lt.mpr hba.le))
      hfirst hsecond ?_
    refine (List.perm_ext_iff_of_nodup (hfirst.imp fun h heq ↦ ?_)
      (hsecond.imp fun h heq ↦ ?_)).mpr fun entry ↦ ?_
    · exact absurd (heq ▸ h) (lt_irrefl _)
    · exact absurd (heq ▸ h) (lt_irrefl _)
    · rw [← lookup_eq_some_iff_mem (nodup_fst hfirst), ← lookup_eq_some_iff_mem (nodup_fst hsecond)]
      exact Eq.congr (hget entry.1) rfl
  subst hentries
  rfl

@[simp]
theorem get?_empty (key : κ) : (empty : BTreeMap κ ν).get? key = none := rfl

@[simp]
theorem get?_insert (key other : κ) (value : ν) :
    (map.insert key value).get? other = if other = key then some value else map.get? other :=
  lookup_insertEntry key other value map.entries

theorem get?_insert_self (key : κ) (value : ν) : (map.insert key value).get? key = some value := by
  simp

theorem get?_insert_of_ne {other : κ} (hne : other ≠ key) (value : ν) :
    (map.insert key value).get? other = map.get? other := by
  simp [hne]

/-- Only the last value bound to a key is kept. -/
theorem insert_insert (key : κ) (before after : ν) :
    (map.insert key before).insert key after = map.insert key after := by
  apply ext_get?
  intro other
  rw [get?_insert, get?_insert, get?_insert]
  split_ifs <;> rfl

theorem get?_filter (test : κ → ν → Bool) (key : κ) :
    (map.filter test).get? key = (map.get? key).filter (test key) := by
  refine Option.ext fun value ↦ ?_
  rw [← mem_entries_iff]
  simp only [filter, List.mem_filter, mem_entries_iff, Option.filter_eq_some_iff]

@[simp]
theorem get?_erase (key other : κ) :
    (map.erase key).get? other = if other = key then none else map.get? other := by
  rw [erase, get?_filter]
  by_cases hkey : other = key
  · simp [hkey]
  · simp only [hkey, ne_eq, not_false_eq_true, decide_true, if_false]
    cases map.get? other <;> rfl

@[simp]
theorem get?_mapValues (transform : κ → ν → μ) (key : κ) :
    (map.mapValues transform).get? key = (map.get? key).map (transform key) :=
  lookup_map transform map.entries

theorem mem_keys_iff : key ∈ map.keys ↔ ∃ value, map.get? key = some value := by
  simp only [keys, mem_map, Prod.exists, exists_and_right, exists_eq_right, mem_entries_iff]

theorem mem_values_iff : value ∈ map.values ↔ ∃ key, map.get? key = some value := by
  simp only [values, mem_map, Prod.exists, mem_entries_iff]
  exact ⟨fun ⟨key, found, hfound, heq⟩ ↦ ⟨key, heq ▸ hfound⟩,
    fun ⟨key, hkey⟩ ↦ ⟨key, value, hkey, rfl⟩⟩

theorem pairwise_keys : map.keys.Pairwise (· < ·) := List.pairwise_map.mpr map.ascending

theorem nodup_keys : map.keys.Nodup := map.pairwise_keys.imp ne_of_lt

/-! ### Binding a list of pairs -/

theorem get?_foldl_insert_of_notMem (pairs : List (κ × ν)) (hkey : key ∉ pairs.map Prod.fst) :
    (pairs.foldl (fun map pair ↦ map.insert pair.1 pair.2) map).get? key = map.get? key := by
  induction pairs generalizing map with
  | nil => rfl
  | cons pair rest ih =>
    rw [map_cons, mem_cons, not_or] at hkey
    rw [foldl_cons, ih _ hkey.2, get?_insert_of_ne _ hkey.1]

variable {pairs : List (κ × ν)}

theorem get?_foldl_insert_of_mem (hnodup : (pairs.map Prod.fst).Nodup)
    (hmem : (key, value) ∈ pairs) :
    (pairs.foldl (fun map pair ↦ map.insert pair.1 pair.2) map).get? key = some value := by
  induction pairs generalizing map with
  | nil => cases hmem
  | cons pair rest ih =>
    rw [map_cons, List.nodup_cons] at hnodup
    rw [foldl_cons]
    rcases mem_cons.mp hmem with rfl | hrest
    · rw [get?_foldl_insert_of_notMem _ _ hnodup.1, get?_insert_self]
    · exact ih _ hnodup.2 hrest

/-- A binding after binding pairs comes from one of them or was there. -/
theorem mem_or_get?_of_foldl_insert (pairs : List (κ × ν))
    (hget : (pairs.foldl (fun map pair ↦ map.insert pair.1 pair.2) map).get? key = some value) :
    (key, value) ∈ pairs ∨ map.get? key = some value := by
  induction pairs generalizing map with
  | nil => exact Or.inr hget
  | cons pair rest ih =>
    rcases ih _ hget with hrest | hhead
    · exact Or.inl (mem_cons_of_mem _ hrest)
    · rw [get?_insert] at hhead
      split_ifs at hhead with hkey
      · rw [Option.some.injEq] at hhead
        exact Or.inl (mem_cons.mpr (Or.inl (Prod.ext hkey hhead.symm)))
      · exact Or.inr hhead

theorem mem_of_get?_ofList (hget : (ofList pairs).get? key = some value) :
    (key, value) ∈ pairs := by
  rcases mem_or_get?_of_foldl_insert empty pairs hget with hmem | hempty
  · exact hmem
  · cases hempty

theorem mem_keys_foldl_insert_iff (pairs : List (κ × ν)) :
    key ∈ (pairs.foldl (fun map pair ↦ map.insert pair.1 pair.2) map).keys ↔
      key ∈ pairs.map Prod.fst ∨ key ∈ map.keys := by
  induction pairs generalizing map with
  | nil => simp
  | cons pair rest ih =>
    have hinsert : key ∈ (map.insert pair.1 pair.2).keys ↔ key = pair.1 ∨ key ∈ map.keys := by
      simp only [mem_keys_iff, get?_insert]
      by_cases hkey : key = pair.1
      · simp [hkey]
      · simp [hkey]
    rw [foldl_cons, ih, hinsert, map_cons, mem_cons]
    tauto

/-- Binding the bindings of a map gives it back. -/
theorem ofList_entries : ofList map.entries = map := by
  apply ext_get?
  intro key
  cases hget : map.get? key with
  | some value =>
    exact get?_foldl_insert_of_mem empty map.nodup_keys (map.mem_entries_iff.mpr hget)
  | none =>
    apply get?_foldl_insert_of_notMem
    intro hkey
    obtain ⟨value, hvalue⟩ := map.mem_keys_iff.mp hkey
    exact absurd (hvalue.symm.trans hget) (Option.some_ne_none value)

theorem mem_keys_ofList_iff : key ∈ (ofList pairs).keys ↔ key ∈ pairs.map Prod.fst := by
  rw [ofList, mem_keys_foldl_insert_iff]
  exact or_iff_left List.not_mem_nil

/-! ### Totals -/

/-- The total weight of the values. -/
def sum (weight : ν → ℕ) : ℕ := (map.values.map weight).sum

theorem sum_insert (key : κ) (value : ν) (weight : ν → ℕ) :
    (map.insert key value).sum weight + ((map.get? key).map weight).getD 0 =
      map.sum weight + weight value := by
  obtain ⟨entries, hascending⟩ := map
  simp only [sum, values, insert, get?]
  induction entries with
  | nil => simp [insertEntry, lookup]
  | cons head rest ih =>
    obtain ⟨found, old⟩ := head
    obtain ⟨hhead, hrest⟩ := pairwise_cons.mp hascending
    have hnext := ih hrest
    unfold insertEntry lookup
    split_ifs with hlt heq heq
    · exact absurd heq (ne_of_lt hlt)
    · rw [lookup_eq_none_of_lt fun entry hentry ↦ lt_trans hlt (hhead entry hentry)]
      simp only [map_cons, sum_cons, Option.map_none, Option.getD_none]
      omega
    · simp only [map_cons, sum_cons, Option.map_some, Option.getD_some]
      omega
    · simp only [map_cons, sum_cons] at hnext ⊢
      omega

theorem sum_erase (hvalue : map.get? key = some value) (weight : ν → ℕ) :
    (map.erase key).sum weight + weight value = map.sum weight := by
  have hinsert := (map.erase key).sum_insert key value weight
  have hsame : (map.erase key).insert key value = map := by
    refine ext_get? fun other ↦ ?_
    rw [get?_insert, get?_erase]
    split_ifs with hother
    · rw [hother, hvalue]
    · rfl
  rw [hsame, get?_erase, if_pos rfl] at hinsert
  simpa using hinsert.symm

theorem sum_insert_of_get? {before : ν} (hbefore : map.get? key = some before) (after : ν)
    (weight : ν → ℕ) :
    (map.insert key after).sum weight + weight before = map.sum weight + weight after := by
  have hinsert := map.sum_insert key after weight
  rwa [hbefore] at hinsert

/-- A total after binding a key is what the other keys weigh and the new weight. -/
theorem sum_insert_eq (key : κ) (value : ν) (weight : ν → ℕ) :
    (map.insert key value).sum weight = (map.erase key).sum weight + weight value := by
  have hsame : (map.insert key value).erase key = map.erase key := by
    refine ext_get? fun other ↦ ?_
    simp only [get?_erase, get?_insert]
    split_ifs <;> rfl
  rw [← hsame]
  exact ((map.insert key value).sum_erase (map.get?_insert_self key value) weight).symm

theorem sum_insert_of_fresh (hfresh : map.get? key = none) (value : ν) (weight : ν → ℕ) :
    (map.insert key value).sum weight = map.sum weight + weight value := by
  have hinsert := map.sum_insert key value weight
  rwa [hfresh] at hinsert

/-- A bound value weighs at most the total. -/
theorem le_sum (hvalue : map.get? key = some value) (weight : ν → ℕ) :
    weight value ≤ map.sum weight := by
  rw [← map.sum_erase hvalue weight]
  exact Nat.le_add_left _ _

/-- Weights that agree on the bound values give one total. -/
theorem sum_congr {first second : ν → ℕ}
    (hweights : ∀ key value, map.get? key = some value → first value = second value) :
    map.sum first = map.sum second := by
  unfold sum
  congr 1
  refine List.map_congr_left fun value hvalue ↦ ?_
  obtain ⟨key, hkey⟩ := map.mem_values_iff.mp hvalue
  exact hweights key value hkey

/-- Keeping the bindings that pass a test splits a total into what is kept and what is not. -/
theorem sum_filter_add (test : κ → ν → Bool) (weight : ν → ℕ) :
    (map.filter fun key value ↦ !test key value).sum weight +
      ((map.entries.filter fun entry ↦ test entry.1 entry.2).map fun entry ↦ weight entry.2).sum =
      map.sum weight := by
  simp only [sum, values, filter]
  induction map.entries with
  | nil => rfl
  | cons head rest ih =>
    cases htest : test head.1 head.2
    · simp only [List.filter_cons, htest, Bool.not_false, if_true, Bool.false_eq_true, if_false,
        map_cons, sum_cons]
      omega
    · simp only [List.filter_cons, htest, Bool.not_true, if_true, Bool.false_eq_true, if_false,
        map_cons, sum_cons]
      omega

/-- The number of bindings is a total. -/
theorem size_eq_sum : map.size = map.sum fun _ ↦ 1 := by
  simp [size, sum, values, List.map_map, Function.comp_def]

theorem size_ofList_le (pairs : List (κ × ν)) : (ofList pairs).size ≤ pairs.length := by
  have hsteps (map : BTreeMap κ ν) :
      (pairs.foldl (fun map pair ↦ map.insert pair.1 pair.2) map).size ≤
        map.size + pairs.length := by
    induction pairs generalizing map with
    | nil => exact le_refl _
    | cons pair rest ih =>
      have hinsert := map.sum_insert pair.1 pair.2 fun _ ↦ 1
      rw [← size_eq_sum, ← size_eq_sum] at hinsert
      have hrest := ih (map.insert pair.1 pair.2)
      rw [foldl_cons, List.length_cons]
      omega
  exact (hsteps empty).trans_eq (Nat.zero_add _)

end BTreeMap

end Crpg.Lib
